import Eleu.Proofs.Fresh
import Mathlib.Data.List.Forall2

/-! # Values and stores of two runs

    Two runs are set side by side whose functions come from different declarations: the trees are
    the same but for their ids. A `Pairing` says which declaration of the one run corresponds to
    which of the other. Values are alike if they are the same value, or functions over the same
    environment whose declarations are paired; stores are alike if they hold alike values in the
    same places. Every operation on the store takes alike stores and values to alike ones, and
    no text, truth value or error tells alike values apart. -/

namespace Eleu

/-! ## Tables and arrays -/

theorem rel_getElem? {α β : Type} {A : α → β → Prop} {as : List α} {bs : List β}
    (h : List.Forall₂ A as bs) (i : Nat) : Option.Rel A as[i]? bs[i]? := by
  induction h generalizing i with
  | nil => simp
  | cons hab _ ih =>
    cases i with
    | zero => exact .some hab
    | succ i => simpa using ih i

/-- The two tables have the same keys, with values that `A` relates. -/
def Table.Like {κ α β : Type} [DecidableEq κ] (A : α → β → Prop) (t : Table κ α) (u : Table κ β) :
    Prop :=
  ∀ key, Option.Rel A (t.get? key) (u.get? key)

/-- An entry that is added to both. -/
theorem Table.Like.insert {κ α β : Type} [DecidableEq κ] {A : α → β → Prop} {t : Table κ α}
    {u : Table κ β} (h : t.Like A u) (key : κ) {a : α} {b : β} (hab : A a b) :
    (t.insert key a).Like A (u.insert key b) := by
  intro other
  rw [get?_insert, get?_insert]
  split
  · exact .some hab
  · exact h other

/-- The two arrays have the same length and elements that `A` relates. -/
structure Rows {α β : Type} (A : α → β → Prop) (xs : Array α) (ys : Array β) : Prop where
  size : ys.size = xs.size
  get? : ∀ i : Nat, Option.Rel A xs[i]? ys[i]?

namespace Rows

variable {α β : Type} {A : α → β → Prop} {xs : Array α} {ys : Array β}

theorem getD (h : Rows A xs ys) (i : Nat) {a : α} {b : β} (hab : A a b) :
    A (xs[i]?.getD a) (ys[i]?.getD b) := by
  obtain ⟨hx, hy⟩ | ⟨x, y, hx, hy, h⟩ := rel_cases (h.get? i)
  · rw [hx, hy]
    exact hab
  · rw [hx, hy]
    exact h

theorem push (h : Rows A xs ys) {a : α} {b : β} (hab : A a b) : Rows A (xs.push a) (ys.push b) := by
  refine ⟨by rw [Array.size_push, Array.size_push, h.size], fun i => ?_⟩
  rw [Array.getElem?_push, Array.getElem?_push, h.size]
  split
  · exact .some hab
  · exact h.get? i

theorem modify (h : Rows A xs ys) (i : Nat) {f : α → α} {g : β → β}
    (hfg : ∀ a b, A a b → A (f a) (g b)) : Rows A (xs.modify i f) (ys.modify i g) := by
  refine ⟨by rw [Array.size_modify, Array.size_modify, h.size], fun j => ?_⟩
  rw [Array.getElem?_modify, Array.getElem?_modify]
  split
  · obtain ⟨hx, hy⟩ | ⟨x, y, hx, hy, hxy⟩ := rel_cases (h.get? j)
    · rw [hx, hy]
      exact .none
    · rw [hx, hy]
      exact .some (hfg _ _ hxy)
  · exact h.get? j

theorem empty : Rows A #[] #[] := ⟨rfl, fun i => by simp⟩

theorem of_forall₂ {as : List α} {bs : List β} (h : List.Forall₂ A as bs) :
    Rows A as.toArray bs.toArray := by
  refine ⟨by simpa using h.length_eq.symm, fun i => ?_⟩
  rw [List.getElem?_toArray, List.getElem?_toArray]
  exact rel_getElem? h i

/-- A function that does not tell related elements apart gives the same list for both. -/
theorem map_eq {γ : Type} (h : Rows A xs ys) {f : α → γ} {g : β → γ}
    (hfg : ∀ a b, A a b → g b = f a) : ys.toList.map g = xs.toList.map f := by
  refine List.ext_getElem? fun i => ?_
  rw [List.getElem?_map, List.getElem?_map, Array.getElem?_toList, Array.getElem?_toList]
  obtain ⟨hx, hy⟩ | ⟨x, y, hx, hy, hxy⟩ := rel_cases (h.get? i)
  · rw [hx, hy]
    rfl
  · rw [hx, hy]
    exact congrArg some (hfg _ _ hxy)

end Rows

/-! ## Values -/

/-- Which declarations of two runs correspond. -/
abbrev Pairing := FunctionDecl → FunctionDecl → Prop

/-- Paired declarations have the same name and the same parameters, and two of them are the same one
    in both runs or in neither. -/
structure Pairing.Faithful (P : Pairing) : Prop where
  name : ∀ {a a'}, P a a' → a'.name = a.name
  params : ∀ {a a'}, P a a' → a'.params = a.params
  same : ∀ {a a' b b'}, P a a' → P b b' → a'.same b' = a.same b

/-- Functions over the same environment, with paired declarations. -/
structure Closure.Like (P : Pairing) (c c' : Closure) : Prop where
  decl : P c.decl c'.decl
  env : c'.env = c.env
  isInit : c'.isInit = c.isInit

/-- The same value, or functions that are alike. -/
inductive Value.Like (P : Pairing) : Value → Value → Prop where
  | plain {v : Value} (h : v.Plain) : Like P v v
  | closure {c c' : Closure} (h : c.Like P c') :
    Like P (.callable (.closure c)) (.callable (.closure c'))

/-- Members that are alike: values, or methods of the same instance. -/
inductive Member.Like (P : Pairing) : Member → Member → Prop where
  | value {v v' : Value} (h : v.Like P v') : Like P (.value v) (.value v')
  | method {c c' : Closure} (h : c.Like P c') (this : InstanceRef) :
    Like P (.method c this) (.method c' this)

/-- Scopes with the same parent and alike variables. -/
structure Env.Like (P : Pairing) (e e' : Env) : Prop where
  parent : e'.parent = e.parent
  bindings : e.bindings.Like (Value.Like P) e'.bindings

/-- Classes with the same name, the same superclass and alike methods. -/
structure ClassObject.Like (P : Pairing) (c c' : ClassObject) : Prop where
  name : c'.name = c.name
  parent : c'.parent = c.parent
  methods : c.methods.Like (Closure.Like P) c'.methods

/-- Instances of the same class with alike fields. -/
structure Instance.Like (P : Pairing) (i i' : Instance) : Prop where
  classRef : i'.classRef = i.classRef
  fields : i.fields.Like (Value.Like P) i'.fields

/-- Stores that hold alike things in the same places. -/
structure Store.Like (P : Pairing) (s s' : Store) : Prop where
  envs : Rows (Env.Like P) s.envs s'.envs
  lists : Rows (Rows (Value.Like P)) s.lists s'.lists
  classes : Rows (ClassObject.Like P) s.classes s'.classes
  instances : Rows (Instance.Like P) s.instances s'.instances

section

variable {P Q : Pairing}

theorem Closure.Like.mono (hPQ : ∀ a a', P a a' → Q a a') {c c' : Closure} (h : c.Like P c') :
    c.Like Q c' :=
  ⟨hPQ _ _ h.decl, h.env, h.isInit⟩

theorem Value.Like.mono (hPQ : ∀ a a', P a a' → Q a a') {v v' : Value} (h : v.Like P v') :
    v.Like Q v' := by
  cases h with
  | plain h => exact .plain h
  | closure h => exact .closure (h.mono hPQ)

theorem Table.Like.mono {κ α β : Type} [DecidableEq κ] {A B : α → β → Prop} {t : Table κ α}
    {u : Table κ β} (h : t.Like A u) (hAB : ∀ a b, A a b → B a b) : t.Like B u := by
  intro key
  obtain ⟨hx, hy⟩ | ⟨x, y, hx, hy, hxy⟩ := rel_cases (h key)
  · rw [hx, hy]
    exact .none
  · rw [hx, hy]
    exact .some (hAB _ _ hxy)

theorem Rows.mono {α β : Type} {A B : α → β → Prop} {xs : Array α} {ys : Array β}
    (h : Rows A xs ys) (hAB : ∀ a b, A a b → B a b) : Rows B xs ys := by
  refine ⟨h.size, fun i => ?_⟩
  obtain ⟨hx, hy⟩ | ⟨x, y, hx, hy, hxy⟩ := rel_cases (h.get? i)
  · rw [hx, hy]
    exact .none
  · rw [hx, hy]
    exact .some (hAB _ _ hxy)

/-- More declarations may be paired. -/
theorem Store.Like.mono (hPQ : ∀ a a', P a a' → Q a a') {s s' : Store} (h : s.Like P s') :
    s.Like Q s' where
  envs := h.envs.mono fun _ _ he => ⟨he.parent, he.bindings.mono fun _ _ => Value.Like.mono hPQ⟩
  lists := h.lists.mono fun _ _ hl => hl.mono fun _ _ => Value.Like.mono hPQ
  classes := h.classes.mono fun _ _ hc =>
    ⟨hc.name, hc.parent, hc.methods.mono fun _ _ => Closure.Like.mono hPQ⟩
  instances := h.instances.mono fun _ _ hi =>
    ⟨hi.classRef, hi.fields.mono fun _ _ => Value.Like.mono hPQ⟩

end

namespace Store

variable {P : Pairing} {s s' : Store}

/-- What `super.name` denotes, given what `super` and `this` do. -/
def methodOfSuper (s : Store) (name : String) (parent this : Value) : Except Cause Member :=
  match parent, this with
  | .callable (.classRef c), .object i =>
    match s.findMethod? c name with
    | some m => .ok (.method m i)
    | none => .error (.undefinedProperty name)
  | _, _ => .error (.misresolved "super")

namespace Like

variable (h : s.Like P s')
include h

/-! ## Environments -/

theorem env (e : EnvRef) : (s.env e).Like P (s'.env e) :=
  h.envs.getD e ⟨rfl, fun _ => .none⟩

theorem local? (e : EnvRef) (name : String) :
    Option.Rel (Value.Like P) (s.local? e name) (s'.local? e name) :=
  (h.env e).bindings name

theorem hasLocal (e : EnvRef) (name : String) : s'.hasLocal e name = s.hasLocal e name := by
  show (s'.local? e name).isSome = (s.local? e name).isSome
  obtain ⟨hx, hy⟩ | ⟨x, y, hx, hy, -⟩ := rel_cases (h.local? e name)
  · rw [hx, hy]
  · rw [hx, hy]
    rfl

theorem define (e : EnvRef) (name : String) {v v' : Value} (hv : v.Like P v') :
    (s.define e name v).Like P (s'.define e name v') := by
  refine ⟨?_, h.lists, h.classes, h.instances⟩
  dsimp only [Store.define]
  exact h.envs.modify e fun _ _ he => ⟨he.parent, he.bindings.insert name hv⟩

theorem newEnv (p : Option EnvRef) : (s.newEnv p).2.Like P (s'.newEnv p).2 where
  envs := h.envs.push ⟨rfl, fun _ => .none⟩
  lists := h.lists
  classes := h.classes
  instances := h.instances

theorem ancestor? (e : EnvRef) (depth : Nat) : s'.ancestor? e depth = s.ancestor? e depth := by
  induction depth generalizing e with
  | zero => rfl
  | succ depth ih =>
    unfold Store.ancestor?
    rw [(h.env e).parent]
    split
    · exact ih _
    · rfl

theorem getAt (e : EnvRef) (name : String) (depth : Nat) :
    YieldAlike (Value.Like P) (s.getAt e name depth) (s'.getAt e name depth) := by
  unfold Store.getAt
  rw [h.ancestor?]
  cases s.ancestor? e depth with
  | none => exact .error _
  | some a =>
    dsimp only
    obtain ⟨hx, hy⟩ | ⟨v, v', hx, hy, hv⟩ := rel_cases (h.local? a name)
    · rw [hx, hy]
      exact .error _
    · rw [hx, hy]
      exact .ok hv

theorem holderAt (e : EnvRef) (name : String) (depth : Nat) :
    s'.holderAt e name depth = s.holderAt e name depth := by
  unfold Store.holderAt
  rw [h.ancestor?]
  split
  · rfl
  · rw [h.hasLocal]

theorem binderWithin (name : String) (steps : Nat) (e : EnvRef) :
    s'.binderWithin name steps e = s.binderWithin name steps e := by
  induction steps generalizing e with
  | zero => rfl
  | succ steps ih =>
    unfold Store.binderWithin
    rw [h.hasLocal, (h.env e).parent]
    split
    · rfl
    · split
      · exact ih _
      · rfl

theorem binder? (e : EnvRef) (name : String) : s'.binder? e name = s.binder? e name := by
  unfold Store.binder?
  rw [h.envs.size, h.binderWithin]

theorem get (e : EnvRef) (name : String) :
    YieldAlike (Value.Like P) (s.get e name) (s'.get e name) := by
  unfold Store.get
  rw [h.binder?]
  cases s.binder? e name with
  | none => exact .error _
  | some b =>
    rw [Option.bind_some, Option.bind_some]
    obtain ⟨hx, hy⟩ | ⟨v, v', hx, hy, hv⟩ := rel_cases (h.local? b name)
    · rw [hx, hy]
      exact .error _
    · rw [hx, hy]
      exact .ok hv

theorem holder (e : EnvRef) (name : String) : s'.holder e name = s.holder e name := by
  unfold Store.holder
  rw [h.binder?]

theorem defineAll (e : EnvRef) (names : List String) {vs vs' : List Value}
    (hvs : List.Forall₂ (Value.Like P) vs vs') :
    (s.defineAll e names vs).Like P (s'.defineAll e names vs') := by
  induction names generalizing s s' vs vs' with
  | nil => cases hvs <;> exact h
  | cons name names ih =>
    cases hvs with
    | nil => exact h
    | cons hv hvs => exact ih (h.define e name hv) hvs

/-! ## Lists, classes and instances -/

theorem list (r : ListRef) : Rows (Value.Like P) (s.list r) (s'.list r) :=
  h.lists.getD r .empty

theorem newList {vs vs' : List Value} (hvs : List.Forall₂ (Value.Like P) vs vs') :
    (s.newList vs.toArray).2.Like P (s'.newList vs'.toArray).2 where
  envs := h.envs
  lists := h.lists.push (.of_forall₂ hvs)
  classes := h.classes
  instances := h.instances

theorem pushTo (r : ListRef) {v v' : Value} (hv : v.Like P v') :
    (s.pushTo r v).Like P (s'.pushTo r v') where
  envs := h.envs
  lists := h.lists.modify r fun _ _ hxs => hxs.push hv
  classes := h.classes
  instances := h.instances

theorem classAt (r : ClassRef) : (s.classAt r).Like P (s'.classAt r) :=
  h.classes.getD r ⟨rfl, rfl, fun _ => .none⟩

theorem instanceAt (r : InstanceRef) : (s.instanceAt r).Like P (s'.instanceAt r) := by
  unfold Store.instanceAt
  rw [h.classes.size]
  exact h.instances.getD r ⟨rfl, fun _ => .none⟩

theorem newInstance (r : ClassRef) : (s.newInstance r).2.Like P (s'.newInstance r).2 where
  envs := h.envs
  lists := h.lists
  classes := h.classes
  instances := h.instances.push ⟨rfl, fun _ => .none⟩

theorem newClass (name : String) (p : Option ClassRef) :
    (s.newClass name p).2.Like P (s'.newClass name p).2 where
  envs := h.envs
  lists := h.lists
  classes := h.classes.push ⟨rfl, rfl, fun _ => .none⟩
  instances := h.instances

theorem setMethod (r : ClassRef) (name : String) {c c' : Closure}
    (hc : c.Like P c') : (s.setMethod r name c).Like P (s'.setMethod r name c') := by
  refine ⟨h.envs, h.lists, ?_, h.instances⟩
  dsimp only [Store.setMethod]
  exact h.classes.modify r fun _ _ hk => ⟨hk.name, hk.parent, hk.methods.insert name hc⟩

theorem setField (r : InstanceRef) (name : String) {v v' : Value}
    (hv : v.Like P v') : (s.setField r name v).Like P (s'.setField r name v') := by
  refine ⟨h.envs, h.lists, h.classes, ?_⟩
  dsimp only [Store.setField]
  exact h.instances.modify r fun _ _ hi => ⟨hi.classRef, hi.fields.insert name hv⟩

theorem methodWithin (name : String) (steps : Nat) (r : ClassRef) :
    Option.Rel (Closure.Like P) (s.methodWithin name steps r) (s'.methodWithin name steps r) := by
  induction steps generalizing r with
  | zero => exact .none
  | succ steps ih =>
    unfold Store.methodWithin
    rw [(h.classAt r).parent]
    obtain ⟨hx, hy⟩ | ⟨c, c', hx, hy, hc⟩ := rel_cases ((h.classAt r).methods name)
    · rw [hx, hy]
      cases (s.classAt r).parent with
      | some p => exact ih p
      | none => exact .none
    · rw [hx, hy]
      exact .some hc

theorem findMethod? (r : ClassRef) (name : String) :
    Option.Rel (Closure.Like P) (s.findMethod? r name) (s'.findMethod? r name) := by
  unfold Store.findMethod?
  rw [h.classes.size]
  exact h.methodWithin name _ r

/-- A field or a method. -/
theorem findMember (r : InstanceRef) (name : String) :
    YieldAlike (Member.Like P) (s.findMember r name) (s'.findMember r name) := by
  unfold Store.findMember
  rw [(h.instanceAt r).classRef]
  obtain ⟨hx, hy⟩ | ⟨v, v', hx, hy, hv⟩ := rel_cases ((h.instanceAt r).fields name)
  · rw [hx, hy]
    obtain ⟨hx, hy⟩ | ⟨c, c', hx, hy, hc⟩ :=
      rel_cases (h.findMethod? (s.instanceAt r).classRef name)
    · rw [hx, hy]
      exact .error _
    · rw [hx, hy]
      exact .ok (.method hc r)
  · rw [hx, hy]
    exact .ok (.value hv)

/-- The method `name` of the class that `super` denotes, if that is a class and `this` an instance. -/
theorem superMethod (name : String) {parent parent' this this' : Value}
    (hparent : parent.Like P parent') (hthis : this.Like P this') :
    YieldAlike (Member.Like P) (s.methodOfSuper name parent this)
      (s'.methodOfSuper name parent' this') := by
  cases hparent with
  | closure _ => exact .error _
  | plain _ =>
    cases parent with
    | callable c =>
      cases c with
      | classRef c =>
        cases hthis with
        | closure _ => exact .error _
        | plain _ =>
          cases this with
          | object i =>
            dsimp only [methodOfSuper]
            obtain ⟨hx, hy⟩ | ⟨m, m', hx, hy, hm⟩ := rel_cases (h.findMethod? c name)
            · rw [hx, hy]
              exact .error _
            · rw [hx, hy]
              exact .ok (.method hm i)
          | _ => exact .error _
      | _ => exact .error _
    | _ => exact .error _

theorem findSuper (e : EnvRef) (distance : Nat) (name : String) :
    YieldAlike (Member.Like P) (s.findSuper e distance name) (s'.findSuper e distance name) := by
  refine (h.getAt e "super" distance).bind fun parent parent' hparent => ?_
  cases distance with
  | zero => exact .error _
  | succ d =>
    exact (h.getAt e "this" d).bind fun this this' hthis => h.superMethod name hparent hthis

/-- A method bound to an instance. -/
theorem bind {c c' : Closure} (hc : c.Like P c') (this : InstanceRef) :
    (s.bind c this).1.Like P (s'.bind c' this).1 ∧ (s.bind c this).2.Like P (s'.bind c' this).2 := by
  have henv : (s'.newEnv (some c'.env)).1 = (s.newEnv (some c.env)).1 := h.envs.size
  refine ⟨⟨hc.decl, henv, hc.isInit⟩, ?_⟩
  show ((s.newEnv (some c.env)).2.define s.envs.size "this" _).Like P
    ((s'.newEnv (some c'.env)).2.define s'.envs.size "this" _)
  rw [h.envs.size, hc.env]
  exact (h.newEnv _).define _ _ (.plain trivial)

theorem take {m m' : Member} (hm : m.Like P m') :
    (s.take m).1.Like P (s'.take m').1 ∧ (s.take m).2.Like P (s'.take m').2 := by
  cases hm with
  | value hv => exact ⟨hv, h⟩
  | method hc this => exact ⟨.closure (h.bind hc this).1, (h.bind hc this).2⟩

/-! ## Methods of a class statement -/

theorem addMethods (hP : P.Faithful) (r : ClassRef) (e : EnvRef)
    {methods methods' : List FunctionDecl} (hms : List.Forall₂ P methods methods') :
    (s.addMethods r e methods).Like P (s'.addMethods r e methods') := by
  induction hms generalizing s s' with
  | nil => exact h
  | cons hd _ ih =>
    unfold Store.addMethods
    rw [hP.name hd]
    exact ih (h.setMethod r _ ⟨hd, rfl, rfl⟩)

/-! ## Texts -/

section

variable {v v' : Value} (hP : P.Faithful)
include hP

theorem callableText {c c' : Callable}
    (hc : (Value.callable c).Like P (.callable c')) : s'.callableText c' = s.callableText c := by
  cases hc with
  | closure hc =>
    simp only [Store.callableText, hP.name hc.decl, hP.params hc.decl]
  | plain _ =>
    cases c with
    | classRef r =>
      simp only [Store.callableText, (h.classAt r).name]
    | _ => rfl

/-- By induction on the depth. -/
theorem write (depth : Nat) (quoted : Bool) (hv : v.Like P v') :
    s'.write depth quoted v' = s.write depth quoted v := by
  induction depth generalizing quoted v v' with
  | zero =>
    cases hv with
    | closure hc => exact h.callableText hP (.closure hc)
    | plain hp =>
      cases v with
      | callable c => exact h.callableText hP (.plain hp)
      | object r =>
        unfold Store.write
        rw [(h.instanceAt r).classRef, (h.classAt _).name]
      | _ => rfl
  | succ depth ih =>
    cases hv with
    | closure hc => exact h.callableText hP (.closure hc)
    | plain hp =>
      cases v with
      | callable c => exact h.callableText hP (.plain hp)
      | object r =>
        unfold Store.write
        rw [(h.instanceAt r).classRef, (h.classAt _).name]
      | list r =>
        unfold Store.write
        rw [(h.list r).map_eq fun _ _ hx => ih true hx]
      | _ => rfl

theorem text (hv : v.Like P v') : s'.text v' = s.text v := by
  unfold Store.text
  rw [h.lists.size]
  exact h.write hP _ _ hv

theorem repr (hv : v.Like P v') : s'.repr v' = s.repr v := by
  unfold Store.repr
  rw [h.lists.size]
  exact h.write hP _ _ hv

omit hP in
theorem typeName (hv : v.Like P v') : s'.typeName v' = s.typeName v := by
  cases hv with
  | closure _ => rfl
  | plain _ =>
    cases v with
    | callable c =>
      cases c with
      | classRef r =>
        simp only [Store.typeName, (h.classAt r).name]
      | _ => rfl
    | object r =>
      simp only [Store.typeName, (h.instanceAt r).classRef, (h.classAt _).name]
    | _ => rfl

/-! ## Calls and superclasses -/

theorem arity? {c c' : Callable}
    (hc : (Value.callable c).Like P (.callable c')) : s'.arity? c' = s.arity? c := by
  cases hc with
  | closure hc =>
    simp only [Store.arity?, hP.params hc.decl]
  | plain _ =>
    cases c with
    | classRef r =>
      obtain ⟨hx, hy⟩ | ⟨m, m', hx, hy, hm⟩ := rel_cases (h.findMethod? r "init")
      · simp only [Store.arity?, hx, hy]
      · simp only [Store.arity?, hx, hy, Option.map_some, hP.params hm.decl]
    | _ => rfl

theorem callableName {c c' : Callable}
    (hc : (Value.callable c).Like P (.callable c')) : s'.callableName c' = s.callableName c := by
  cases hc with
  | closure hc => exact hP.name hc.decl
  | plain _ =>
    cases c with
    | classRef r => exact (h.classAt r).name
    | _ => rfl

theorem checkArity {c c' : Callable} (hc : (Value.callable c).Like P (.callable c')) (found : Nat) :
    s'.checkArity c' found = s.checkArity c found := by
  unfold Store.checkArity
  rw [h.arity? hP hc, h.callableName hP hc]

theorem superclassOf {x x' : Option Value}
    (hx : Option.Rel (Value.Like P) x x') : s'.superclassOf x' = s.superclassOf x := by
  cases hx with
  | none => rfl
  | @some v v' hv =>
    have hr := h.repr hP hv
    cases hv with
    | closure _ => exact congrArg (fun t => Except.error (Cause.superclassNotClass t)) hr
    | plain _ =>
      cases v with
      | callable c =>
        cases c with
        | classRef r => rfl
        | _ => exact congrArg (fun t => Except.error (Cause.superclassNotClass t)) hr
      | _ => exact congrArg (fun t => Except.error (Cause.superclassNotClass t)) hr

end

/-! ## Operators -/

section

variable {l l' r r' v v' : Value} (hP : P.Faithful)
include hP

omit h hP in
/-- A result that is no function is alike in both runs if it is the same. -/
theorem yieldAlike {E : Cause → Prop} {x y : Except Cause Value} (heq : y = x)
    (hx : Yields x Value.Inert E) : YieldAlike (Value.Like P) x y := by
  subst heq
  cases y with
  | ok v => exact .ok (.plain hx.plain)
  | error c => exact .error c

omit h in
theorem same (hl : l.Like P l') (hr : r.Like P r') : l'.same r' = l.same r := by
  cases hl with
  | plain hpl =>
    cases hr with
    | plain _ => rfl
    | closure _ =>
      match l, hpl with
      | .callable (.native _), _ | .callable (.classRef _), _ | .nil, _ | .bool _, _
      | .number _, _ | .string _, _ | .list _, _ | .object _, _ => rfl
  | @closure c c' hc =>
    cases hr with
    | @plain r hpr =>
      match r, hpr with
      | .callable (.native _), _ | .callable (.classRef _), _ | .nil, _ | .bool _, _
      | .number _, _ | .string _, _ | .list _, _ | .object _, _ => rfl
    | @closure d d' hd =>
      show (c'.decl.same d'.decl && c'.env == d'.env) = (c.decl.same d.decl && c.env == d.env)
      rw [hP.same hc.decl hd.decl, hc.env, hd.env]

theorem truth (hv : v.Like P v') : s'.truth v' = s.truth v := by
  have ht := h.repr hP hv
  cases hv with
  | closure _ => simp only [Store.truth, ht]
  | plain _ => cases v <;> simp only [Store.truth, ht]

theorem rounds (hv : v.Like P v') : s'.rounds v' = s.rounds v := by
  have ht := h.repr hP hv
  cases hv with
  | closure _ => simp only [Store.rounds, ht]
  | plain _ => simp only [Store.rounds, ht]

theorem unary (op : UnaryOp) (hv : v.Like P v') : s'.unary op v' = s.unary op v := by
  have ht := h.repr hP hv
  have htruth := h.truth hP hv
  cases op with
  | not => simp only [Store.unary, htruth]
  | negate =>
    cases hv with
    | closure _ => simp only [Store.unary, ht]
    | plain _ => cases v <;> simp only [Store.unary, ht]

theorem logical (op : LogicalOp) (hl : l.Like P l')
    (hr : r.Like P r') : s'.logical op l' r' = s.logical op l r := by
  simp only [Store.logical, h.truth hP hl, h.truth hP hr]

omit h hP in
theorem compare (hl : l.Like P l') (hr : r.Like P r') : compare l' r' = compare l r := by
  cases hl with
  | closure _ => cases hr <;> rfl
  | plain _ =>
    cases hr with
    | closure _ => cases l <;> rfl
    | plain _ => rfl

theorem add (hl : l.Like P l') (hr : r.Like P r') : s'.add l' r' = s.add l r := by
  have hlt := h.repr hP hl
  have hrt := h.repr hP hr
  cases hl with
  | closure _ => cases hr <;> simp only [Store.add, hlt, hrt]
  | plain _ =>
    cases hr with
    | closure _ => cases l <;> simp only [Store.add, hlt, hrt]
    | plain _ => cases l <;> cases r <;> simp only [Store.add, hlt, hrt]

theorem operands (hl : l.Like P l') (hr : r.Like P r') : s'.operands l' r' = s.operands l r := by
  have hlt := h.repr hP hl
  have hrt := h.repr hP hr
  cases hl with
  | closure _ => cases hr <;> simp only [Store.operands, hlt]
  | plain _ =>
    cases hr with
    | closure _ => cases l <;> simp only [Store.operands, hlt, hrt]
    | plain _ => cases l <;> cases r <;> simp only [Store.operands, hlt, hrt]

/-- The operators with two operands. -/
theorem binary (op : BinaryOp) (hl : l.Like P l')
    (hr : r.Like P r') : s'.binary op l' r' = s.binary op l r := by
  cases op with
  | equal | notEqual => simp only [Store.binary, same hP hl hr]
  | greater | greaterEqual | less | lessEqual => simp only [Store.binary, compare hl hr]
  | plus => exact h.add hP hl hr
  | minus | multiply => simp only [Store.binary, Store.arithmetic, h.operands hP hl hr]
  | divide | modulo => simp only [Store.binary, Store.division, h.operands hP hl hr]

end

end Like

end Store

end Eleu

import Eleu.Proofs.Scope.Context

/-! # Scope analysis by standpoints

    What the rules for scopes say about a place in a program depends on where the place stands: on the
    scopes that are open there with the names declared so far, on the kinds of the function and of the
    class around it, and on the number of loops around it inside that function. A `Standpoint` holds
    all this. It is passed down the tree and from one item to the next, so that each declaration,
    reference and jump is seen from its own standpoint (`itemsSightings`).

    From there on nothing is a matter of order or state. A sighting is at fault or not (`Sighting.fault?`,
    `Misuse`), and a reference has its distance or is global (`Standpoint.distance?`). `analyse` gives
    the first fault, or else the table of all distances. -/

namespace Eleu

/-- A scope as seen from a place inside it. -/
structure OpenScope where
  site : Site
  /-- The names declared before that place, the latest first. -/
  names : List String := []
  /-- The names whose initialiser is not over at that place. -/
  unready : List String := []

/-- Where a part of a program stands. -/
structure Standpoint where
  /-- The open scopes, the innermost first. The outermost scope of the program is not among them. -/
  scopes : List OpenScope := []
  function : Option FunctionRole := none
  classRole : Option ClassRole := none
  /-- The loops around that place inside the same function. -/
  loops : Nat := 0

namespace Standpoint

/-- Inside a new scope. -/
def enter (site : Site) (σ : Standpoint) : Standpoint := { σ with scopes := { site } :: σ.scopes }

/-- In the initialiser of a variable. -/
def declare (name : String) (σ : Standpoint) : Standpoint :=
  { σ with scopes := σ.scopes.modifyHead fun s =>
      { s with names := name :: s.names, unready := name :: s.unready } }

/-- After a declaration. -/
def define (name : String) (σ : Standpoint) : Standpoint :=
  { σ with scopes := σ.scopes.modifyHead fun s =>
      { s with names := name :: s.names, unready := s.unready.filter (· ≠ name) } }

/-- After declarations. -/
def defineAll : List String → Standpoint → Standpoint
  | [], σ => σ
  | name :: names, σ => defineAll names (σ.define name)

/-- In the body of a loop. -/
def inLoop (σ : Standpoint) : Standpoint := { σ with loops := σ.loops + 1 }

/-- Among the parameters of a function, before the first. -/
def inFunction (role : FunctionRole) (id : Nat) (σ : Standpoint) : Standpoint :=
  enter (.function id) { σ with function := some role, loops := 0 }

/-- Among the methods of a class that stands at `span`. A subclass opens a scope for `super`. -/
def inClass (subclass : Bool) (span : Span) (σ : Standpoint) : Standpoint :=
  let σ := if subclass then { (σ.enter (.super span)).define "super" with classRole := some .subclass }
    else { σ with classRole := some .base }
  (σ.enter .this).define "this"

/-- How many scopes out the innermost one is that has declared the name. -/
def distance? (name : String) (σ : Standpoint) : Option Nat :=
  σ.scopes.findIdx? (name ∈ ·.names)

end Standpoint

/-! ## Sightings -/

/-- A part of a program that the rules for scopes have something to say about. -/
inductive Mention where
  | declares (name : String) (span : Span)
  | reads (ident : Ident) (span : Span)
  | writes (ident : Ident)
  | this (ident : Ident) (span : Span)
  | super (ident : Ident) (span : Span)
  /-- The class `name` inherits from `parent`. -/
  | inherits (parent : Ident) (name : String) (span : Span)
  | returns (valued : Bool) (span : Span)
  /-- Goes on with or leaves a loop. -/
  | jumps (keyword : String) (span : Span)

/-- A part of a program as seen from where it stands. -/
structure Sighting where
  place : Standpoint
  mention : Mention

mutual

/-- What is seen in an expression, in the order in which it is resolved. -/
def Expr.sightings (σ : Standpoint) : Expr → List Sighting
  | .literal _ _ => []
  | .list elements _ => exprsSightings σ elements
  | .name ident span => [⟨σ, .reads ident span⟩]
  | .assign target value _ => value.sightings σ ++ [⟨σ, .writes target⟩]
  | .unary _ operand _ => operand.sightings σ
  | .binary left _ right _ => left.sightings σ ++ right.sightings σ
  | .logical left _ right _ => left.sightings σ ++ right.sightings σ
  | .group inner _ => inner.sightings σ
  | .call callee args _ => callee.sightings σ ++ exprsSightings σ args
  | .getField object _ _ => object.sightings σ
  | .setField object _ value _ => value.sightings σ ++ object.sightings σ
  | .this ident span => [⟨σ, .this ident span⟩]
  | .super ident _ span => [⟨σ, .super ident span⟩]

/-- What is seen in expressions. -/
def exprsSightings (σ : Standpoint) : List Expr → List Sighting
  | [] => []
  | e :: es => e.sightings σ ++ exprsSightings σ es

end

/-- What is seen in an expression that may be missing. -/
def optionSightings (σ : Standpoint) : Option Expr → List Sighting
  | none => []
  | some e => e.sightings σ

/-- What is seen in the parameters of a function. -/
def paramsSightings (span : Span) (σ : Standpoint) : List String → List Sighting
  | [] => []
  | name :: names => ⟨σ, .declares name span⟩ :: paramsSightings span (σ.define name) names

/-- The names that an item adds to the scope it stands in. -/
def Item.adds : Item → List String
  | .var name _ _ => [name]
  | .function decl _ => [decl.name]
  | .class name _ _ _ => [name]
  | .ifThen _ thenItem _ => thenItem.adds
  | .ifElse _ thenItem elseItem _ => thenItem.adds ++ elseItem.adds
  | .while _ body _ _ => body.adds
  | .repeat _ body _ => body.adds
  | .expr .. | .block .. | .return .. | .break _ | .continue _ | .assert .. | .assertFails .. => []

/-- The standpoint after an item. -/
def Standpoint.after (i : Item) (σ : Standpoint) : Standpoint := σ.defineAll i.adds

/-- The superclass in the head of a class. -/
def parentSightings (name : String) (span : Span) (σ : Standpoint) : Option Ident → List Sighting
  | none => []
  | some parent => [⟨σ, .inherits parent name span⟩]

mutual

/-- What is seen in an item, and in all functions declared there. -/
def Item.sightings (σ : Standpoint) : Item → List Sighting
  | .expr e _ => e.sightings σ
  | .var name init span => ⟨σ, .declares name span⟩ :: optionSightings (σ.declare name) init
  | .block body span => itemsSightings (σ.enter (.block span)) body
  | .ifThen c thenItem _ => c.sightings σ ++ thenItem.sightings σ
  | .ifElse c thenItem elseItem _ =>
    c.sightings σ ++ (thenItem.sightings σ ++ elseItem.sightings (σ.after thenItem))
  | .while c body increment _ =>
    c.sightings σ ++ (body.sightings σ.inLoop ++ optionSightings (σ.after body) increment)
  | .repeat count body _ => count.sightings σ ++ body.sightings σ.inLoop
  | .return value span => ⟨σ, .returns value.isSome span⟩ :: optionSightings σ value
  | .break span => [⟨σ, .jumps "break" span⟩]
  | .continue span => [⟨σ, .jumps "continue" span⟩]
  | .assert c _ _ => c.sightings σ
  | .assertFails e _ _ => e.sightings σ
  | .function decl span => ⟨σ, .declares decl.name span⟩ :: decl.sightings .function (σ.define decl.name)
  | .class name parent methods span =>
    ⟨σ, .declares name span⟩ :: (parentSightings name span (σ.define name) parent
      ++ methodsSightings ((σ.define name).inClass parent.isSome span) methods)

/-- What is seen in items, one after the other. -/
def itemsSightings (σ : Standpoint) : List Item → List Sighting
  | [] => []
  | i :: is => i.sightings σ ++ itemsSightings (σ.after i) is

/-- What is seen in a function of the given role. -/
def FunctionDecl.sightings (role : FunctionRole) (σ : Standpoint) : FunctionDecl → List Sighting
  | ⟨_, id, _, _, params, body, span⟩ =>
    paramsSightings span (σ.inFunction role id) params
      ++ itemsSightings ((σ.inFunction role id).defineAll params) body

/-- What is seen in methods. -/
def methodsSightings (σ : Standpoint) : List FunctionDecl → List Sighting
  | [] => []
  | m :: ms => m.sightings (Resolve.methodRole m) σ ++ methodsSightings σ ms

end

/-! ## Faults and distances -/

/-- The fault at `span`, if something is wrong there. -/
def Fault.when (wrong : Bool) (cause : Cause) (span : Span) : Option Fault :=
  if wrong then some { cause, span := some span } else none

namespace Sighting

/-- The innermost scope that is open there satisfies `p`. -/
def innermost (s : Sighting) (p : OpenScope → Bool) : Bool :=
  match s.place.scopes with
  | [] => false
  | scope :: _ => p scope

/-- What is wrong there, and where it is reported. -/
def fault? (s : Sighting) : Option Fault :=
  match s.mention with
  | .declares name span => Fault.when (s.innermost (name ∈ ·.names)) (.redeclared name) span
  | .reads ident span => Fault.when (s.innermost (ident.name ∈ ·.unready)) (.ownInitialiser ident.name) span
  | .writes _ => none
  | .this _ span => Fault.when s.place.classRole.isNone .thisOutsideClass span
  | .super _ span =>
    match s.place.classRole with
    | none => Fault.when true .superOutsideClass span
    | some .base => Fault.when true .superWithoutParent span
    | some .subclass => none
  | .inherits parent name span => Fault.when (parent.name = name) (.selfInheritance name) span
  | .returns valued span =>
    match s.place.function with
    | none => Fault.when true .returnOutsideFunction span
    | some .initialiser => Fault.when valued .returnFromInitialiser span
    | some .function | some .method => none
  | .jumps keyword span => Fault.when (s.place.loops = 0) (.loopControlOutsideLoop keyword) span

/-- The reference, if the part is one. -/
def ident? (s : Sighting) : Option Ident :=
  match s.mention with
  | .reads ident _ | .writes ident | .this ident _ | .super ident _ | .inherits ident _ _ => some ident
  | .declares _ _ | .returns _ _ | .jumps _ _ => none

/-- The distance under the id `id` that is to be noted for the part, if it is a reference to a local
    variable with that id. -/
def distance? (id : Nat) (s : Sighting) : Option Nat :=
  match s.ident? with
  | some ident => if ident.id = id then s.place.distance? ident.name else none
  | none => none

/-- The table with the distance of the reference, if it is to a local variable. -/
def note (d : Distances) (s : Sighting) : Distances :=
  match s.ident? with
  | none => d
  | some ident =>
    match s.place.distance? ident.name with
    | some n => d.insert ident.id n
    | none => d

end Sighting

/-- The first fault. -/
def firstFault? (ss : List Sighting) : Option Fault := ss.findSome? Sighting.fault?

/-- The first fault, or else the distances of all references. -/
def judgeSightings (ss : List Sighting) : Except Fault Distances :=
  match firstFault? ss with
  | some f => .error f
  | none => .ok (ss.foldl Sighting.note {})

/-- The distances of all local references of a program, or its first misuse. -/
def analyse (program : List Item) : Except Fault Distances := judgeSightings (itemsSightings {} program)

/-- The misuses of names, of `this` and `super`, and of jumps. -/
inductive Misuse : Sighting → Fault → Prop where
  /-- A variable is read in its own initialiser. -/
  | ownInitialiser {σ : Standpoint} {scope : OpenScope} {outer : List OpenScope} {ident : Ident} {span : Span}
      (scopes : σ.scopes = scope :: outer) (unready : ident.name ∈ scope.unready) :
      Misuse ⟨σ, .reads ident span⟩ ⟨.ownInitialiser ident.name, some span⟩
  /-- A name is declared twice in the same scope. -/
  | redeclared {σ : Standpoint} {scope : OpenScope} {outer : List OpenScope} {name : String} {span : Span}
      (scopes : σ.scopes = scope :: outer) (declared : name ∈ scope.names) :
      Misuse ⟨σ, .declares name span⟩ ⟨.redeclared name, some span⟩
  | returnOutsideFunction {σ : Standpoint} {valued : Bool} {span : Span} (outside : σ.function = none) :
      Misuse ⟨σ, .returns valued span⟩ ⟨.returnOutsideFunction, some span⟩
  | returnFromInitialiser {σ : Standpoint} {span : Span} (inside : σ.function = some .initialiser) :
      Misuse ⟨σ, .returns true span⟩ ⟨.returnFromInitialiser, some span⟩
  | thisOutsideClass {σ : Standpoint} {ident : Ident} {span : Span} (outside : σ.classRole = none) :
      Misuse ⟨σ, .this ident span⟩ ⟨.thisOutsideClass, some span⟩
  | superOutsideClass {σ : Standpoint} {ident : Ident} {span : Span} (outside : σ.classRole = none) :
      Misuse ⟨σ, .super ident span⟩ ⟨.superOutsideClass, some span⟩
  | superWithoutParent {σ : Standpoint} {ident : Ident} {span : Span} (base : σ.classRole = some .base) :
      Misuse ⟨σ, .super ident span⟩ ⟨.superWithoutParent, some span⟩
  | selfInheritance {σ : Standpoint} {parent : Ident} {span : Span} :
      Misuse ⟨σ, .inherits parent parent.name span⟩ ⟨.selfInheritance parent.name, some span⟩
  /-- A jump stands in no loop of its function. -/
  | loopControlOutsideLoop {σ : Standpoint} {keyword : String} {span : Span} (outside : σ.loops = 0) :
      Misuse ⟨σ, .jumps keyword span⟩ ⟨.loopControlOutsideLoop keyword, some span⟩

/-! ## Standpoints after declarations -/

namespace Standpoint

/-- Outside the innermost scope. -/
def leave (σ : Standpoint) : Standpoint := { σ with scopes := σ.scopes.tail }

theorem leave_enter (site : Site) (σ : Standpoint) : (σ.enter site).leave = σ := rfl

theorem leave_define (name : String) (σ : Standpoint) : (σ.define name).leave = σ.leave := by
  unfold define leave
  rw [List.tail_modifyHead]

/-- Declarations are forgotten with the scope that they stand in. -/
theorem leave_defineAll (names : List String) (σ : Standpoint) : (σ.defineAll names).leave = σ.leave := by
  induction names generalizing σ with
  | nil => rfl
  | cons name names ih => rw [defineAll, ih, leave_define]

theorem defineAll_inLoop (names : List String) (σ : Standpoint) :
    σ.inLoop.defineAll names = (σ.defineAll names).inLoop := by
  induction names generalizing σ with
  | nil => rfl
  | cons name names ih => exact ih (σ.define name)

theorem defineAll_append (names more : List String) (σ : Standpoint) :
    σ.defineAll (names ++ more) = (σ.defineAll names).defineAll more := by
  induction names generalizing σ with
  | nil => rfl
  | cons name names ih => exact ih (σ.define name)

/-- Nothing but the innermost scope is touched. -/
theorem same_defineAll (names : List String) (σ : Standpoint) :
    (σ.defineAll names).scopes.length = σ.scopes.length ∧ (σ.defineAll names).function = σ.function
      ∧ (σ.defineAll names).classRole = σ.classRole ∧ (σ.defineAll names).loops = σ.loops := by
  induction names generalizing σ with
  | nil => exact ⟨rfl, rfl, rfl, rfl⟩
  | cons name names ih =>
    obtain ⟨hscopes, hrest⟩ := ih (σ.define name)
    exact ⟨hscopes.trans (List.length_modifyHead ..), hrest⟩

end Standpoint

/-! ## Where a name is declared -/

/-- The name is declared `n` scopes out, and not further in. -/
def Standpoint.DeclaredAt (σ : Standpoint) (name : String) (n : Nat) : Prop :=
  ∃ inner scope outer, σ.scopes = inner ++ scope :: outer ∧ inner.length = n ∧ name ∈ scope.names
    ∧ ∀ s ∈ inner, name ∉ s.names

/-- The part is a reference with the id `id`, to a variable that is declared `n` scopes out. -/
def Sighting.Refers (s : Sighting) (id n : Nat) : Prop :=
  ∃ ident, s.ident? = some ident ∧ ident.id = id ∧ s.place.DeclaredAt ident.name n

theorem Standpoint.distance?_eq_some_iff {σ : Standpoint} {name : String} {n : Nat} :
    σ.distance? name = some n ↔ σ.DeclaredAt name n := by
  unfold distance? DeclaredAt
  generalize σ.scopes = scopes
  constructor
  · intro h
    obtain ⟨hlt, hdeclared, hinner⟩ := List.findIdx?_eq_some_iff_getElem.1 h
    refine ⟨scopes.take n, scopes[n], scopes.drop (n + 1), ?_, ?_, by simpa using hdeclared, ?_⟩
    · rw [← List.drop_eq_getElem_cons hlt, List.take_append_drop]
    · exact List.length_take_of_le (Nat.le_of_lt hlt)
    · intro s hs
      obtain ⟨k, hk, rfl⟩ := List.mem_take_iff_getElem.1 hs
      simpa using hinner k (by omega)
  · rintro ⟨inner, scope, outer, rfl, rfl, hdeclared, hinner⟩
    refine List.findIdx?_eq_some_iff_getElem.2 ⟨by simp, by simpa using hdeclared, fun k hk => ?_⟩
    rw [List.getElem_append_left hk]
    simpa using hinner _ (List.getElem_mem hk)

theorem Standpoint.distance?_eq_none_iff {σ : Standpoint} {name : String} :
    σ.distance? name = none ↔ ∀ s ∈ σ.scopes, name ∉ s.names := by
  unfold distance?
  rw [List.findIdx?_eq_none_iff]
  simp

end Eleu

import Eleu.Proofs.Isolation.Trees
import Eleu.Walker.Eval

/-! # Walks side by side

    Two walkers, one of which is given the other's tree renumbered, that start in alike states go
    through alike states and end alike. The states differ in the table of distances and in the
    store; what a reference looks up in its table is the same for both, because the tables agree on
    the references of the tree.

    The proof goes by the fuel, for all tasks of the walker at once. -/

namespace Eleu

/-- Walkers that differ in their stores, which are alike, and in their tables of distances. -/
def Walker.Alike (P : Pairing) (d d' : Distances) (w w' : Walker) : Prop :=
  ∃ s', w.world.store.Like P s' ∧ w.distances = d
    ∧ w' = { w with world := { w.world with store := s' }, distances := d' }

/-- Statements that ended in the same way, with alike values. -/
inductive Flow.Like (P : Pairing) : Flow → Flow → Prop where
  | next : Like P .next .next
  | return {v v' : Value} (hv : v.Like P v') : Like P (.return v) (.return v')
  | break : Like P .break .break
  | continue : Like P .continue .continue

namespace Walk

variable {P : Pairing} {d d' : Distances} {f : Nat → Nat} {α β : Type} {A : α → β → Prop} {o : Options}

/-- Computations of the walker that end alike. -/
abbrev Along (P : Pairing) (d d' : Distances) (A : α → β → Prop) (x : Walk α) (y : Walk β) : Prop :=
  Parallel (Walker.Alike P d d') A x y

/-! ## Primitives -/

theorem along_fail (cause : Cause) : Along P d d' A (fail cause) (fail cause) := .throw _

theorem along_lift {x : Except Cause α} {y : Except Cause β} (h : YieldAlike A x y) :
    Along P d d' A (lift x) (lift y) := by
  cases h with
  | ok h => exact .pure h
  | error c => exact along_fail c

theorem along_store : Along P d d' (Store.Like P) store store := by
  refine Parallel.get.bind ?_
  rintro w _ ⟨s', hs, -, rfl⟩
  exact .pure hs

theorem along_update {f : Store → α × Store} {g : Store → β × Store}
    (h : ∀ s s', s.Like P s' → A (f s).1 (g s').1 ∧ (f s).2.Like P (g s').2) :
    Along P d d' A (update f) (update g) := by
  rintro w _ ⟨s', hs, hd, rfl⟩
  obtain ⟨ha, ht⟩ := h w.world.store s' hs
  exact .ok ha ⟨_, ht, hd, rfl⟩

theorem along_modifyStore {f g : Store → Store} (h : ∀ s s', s.Like P s' → (f s).Like P (g s')) :
    Along P d d' Eq (modifyStore f) (modifyStore g) :=
  along_update fun s s' hs => ⟨rfl, h s s' hs⟩

/-- Writes of alike stores. -/
theorem along_onStore {x : StoreM α} {y : StoreM β} (h : Parallel (Store.Like P) A x y) :
    Along P d d' A (onStore x) (onStore y) := by
  rintro w _ ⟨s', hs, hd, rfl⟩
  have hxy := h w.world.store s' hs
  unfold onStore
  dsimp only
  generalize x w.world.store = p at hxy ⊢
  generalize y s' = q at hxy ⊢
  cases hxy with
  | ok ha ht => exact .ok ha ⟨_, ht, hd, rfl⟩
  | error c ht => exact .error _ ⟨_, ht, hd, rfl⟩

theorem along_define (e : EnvRef) (name : String) {v v' : Value} (hv : v.Like P v') :
    Along P d d' Eq (define e name v) (define e name v') :=
  along_modifyStore fun _ _ hs => hs.define e name hv

theorem along_newEnv (parent : EnvRef) : Along P d d' Eq (newEnv parent) (newEnv parent) :=
  along_update fun _ _ hs => ⟨hs.envs.size.symm, hs.newEnv _⟩

theorem along_located (span : Span) {x : Walk α} {y : Walk β} (h : Along P d d' A x y) :
    Along P d d' A (located span x) (located span y) := by
  intro w w' hw
  have hxy := h w w' hw
  unfold located
  generalize x w = p at hxy ⊢
  generalize y w' = q at hxy ⊢
  cases hxy with
  | ok ha hs => exact .ok ha hs
  | error e hs =>
    cases e with
    | fault f => exact .error _ hs
    | outOfFuel => exact .error _ hs

theorem along_inEnv (e : EnvRef) {x : Walk α} {y : Walk β} (h : Along P d d' A x y) :
    Along P d d' A (inEnv e x) (inEnv e y) := by
  rintro w _ ⟨s', hs, hd, rfl⟩
  have hxy := h { w with env := e } _ ⟨s', hs, hd, rfl⟩
  unfold inEnv
  dsimp only
  generalize x { w with env := e } = p at hxy ⊢
  generalize y _ = q at hxy ⊢
  cases hxy with
  | ok ha hs =>
    obtain ⟨t', ht, hd, rfl⟩ := hs
    exact .ok ha ⟨t', ht, hd, rfl⟩
  | error i hs =>
    obtain ⟨t', ht, hd, rfl⟩ := hs
    exact .error i ⟨t', ht, hd, rfl⟩

theorem along_inCall (call : CallSite) {x : Walk α} {y : Walk β} (h : Along P d d' A x y) :
    Along P d d' A (inCall call x) (inCall call y) := by
  rintro w _ ⟨s', hs, hd, rfl⟩
  have hxy := h { w with calls := call :: w.calls } _ ⟨s', hs, hd, rfl⟩
  unfold inCall
  dsimp only
  generalize x { w with calls := call :: w.calls } = p at hxy ⊢
  generalize y _ = q at hxy ⊢
  cases hxy with
  | ok ha hs =>
    obtain ⟨t', ht, hd, rfl⟩ := hs
    exact .ok ha ⟨t', ht, hd, rfl⟩
  | error i hs =>
    obtain ⟨t', ht, hd, rfl⟩ := hs
    cases i with
    | fault f => exact .error _ ⟨t', ht, hd, rfl⟩
    | outOfFuel => exact .error _ ⟨t', ht, hd, rfl⟩

theorem along_attempt {x : Walk Bool} {y : Walk Bool} (h : Along P d d' Eq x y) :
    Along P d d' Eq (attempt x) (attempt y) := by
  intro w w' hw
  have hxy := h w w' hw
  unfold attempt
  generalize x w = p at hxy ⊢
  generalize y w' = q at hxy ⊢
  cases hxy with
  | ok ha hs => exact .ok (congrArg Except.ok ha) hs
  | error i hs =>
    cases i with
    | fault f =>
      obtain ⟨t', ht, hd, rfl⟩ := hs
      exact .ok rfl ⟨t', ht, hd, rfl⟩
    | outOfFuel => exact .error _ hs

theorem along_poll (span : Span) : Along P d d' Eq (poll o span) (poll o span) := by
  refine Parallel.get.bind ?_
  rintro w _ ⟨s', hs, hd, rfl⟩
  have hw : w.world.Alike (Store.Like P) { w.world with store := s' } := ⟨s', hs, rfl⟩
  obtain ⟨hstop, t', ht, hworld⟩ := hw.poll o
  dsimp only
  rw [hstop, hworld]
  refine (Parallel.set ⟨t', ht, hd, rfl⟩).bind fun _ _ _ => ?_
  split
  · exact .throw _
  · exact .pure rfl

theorem along_tally : Along P d d' Eq tally tally := by
  refine Parallel.modify ?_
  rintro w _ ⟨s', hs, hd, rfl⟩
  exact ⟨s', hs, hd, rfl⟩

/-! ## Variables and members -/

theorem along_lookup {i : Ident} (hi : d'.get? (f i.id) = d.get? i.id) :
    Along P d d' (Value.Like P) (lookup i) (lookup (i.renumber f)) := by
  refine Parallel.get.bind ?_
  rintro w _ ⟨s', hs, rfl, rfl⟩
  dsimp only [Ident.renumber]
  rw [hi]
  cases w.distances.get? i.id with
  | some n => exact along_lift (hs.getAt _ _ _)
  | none => exact along_lift (hs.get _ _)

theorem along_assign {i : Ident} (hi : d'.get? (f i.id) = d.get? i.id) {v v' : Value} (hv : v.Like P v') :
    Along P d d' Eq (assign i v) (assign (i.renumber f) v') := by
  refine Parallel.get.bind ?_
  rintro w _ ⟨s', hs, rfl, rfl⟩
  dsimp only [Ident.renumber]
  rw [hi]
  cases w.distances.get? i.id with
  | some n => exact along_onStore (Store.assignAt_parallel _ _ hv n)
  | none => exact along_onStore (Store.assign_parallel _ _ hv)

theorem along_superMethod {i : Ident} (hi : d'.get? (f i.id) = d.get? i.id) (name : String) :
    Along P d d' (Value.Like P) (superMethod i name) (superMethod (i.renumber f) name) := by
  refine Parallel.get.bind ?_
  rintro w _ ⟨s', hs, rfl, rfl⟩
  dsimp only [Ident.renumber]
  rw [hi]
  cases w.distances.get? i.id with
  | some n =>
    refine (along_lift (hs.findSuper _ _ _)).bind fun m m' hm => ?_
    exact along_update fun _ _ ht => ht.take hm
  | none => exact along_fail _

theorem along_member (hP : P.Faithful) {v v' : Value} (hv : v.Like P v') (name : String) :
    Along P d d' (Value.Like P) (member v name) (member v' name) := by
  cases hv with
  | closure hc =>
    refine along_store.bind fun s s' hs => ?_
    rw [hs.repr hP (.closure hc)]
    exact along_fail _
  | plain hp =>
    cases v with
    | object r =>
      refine along_store.bind fun s s' hs => (along_lift (hs.findMember r name)).bind ?_
      intro m m' hm
      exact along_update fun _ _ ht => ht.take hm
    | _ =>
      refine along_store.bind fun s s' hs => ?_
      rw [hs.repr hP (.plain hp)]
      exact along_fail _

theorem along_asInstance (hP : P.Faithful) {v v' : Value} (hv : v.Like P v') :
    Along P d d' Eq (asInstance v) (asInstance v') := by
  cases hv with
  | closure hc =>
    refine along_store.bind fun s s' hs => ?_
    rw [hs.repr hP (.closure hc)]
    exact along_fail _
  | plain hp =>
    cases v with
    | object r => exact .pure rfl
    | _ =>
      refine along_store.bind fun s s' hs => ?_
      rw [hs.repr hP (.plain hp)]
      exact along_fail _

theorem along_native (ho : o.OpaqueHost) (hP : P.Faithful) (f : Native) {args args' : List Value}
    (hargs : List.Forall₂ (Value.Like P) args args') :
    Along P d d' (Value.Like P) (native o f args) (native o f args') := by
  rintro w _ ⟨s', hs, hd, rfl⟩
  have hcall := NativeM.call_parallel ho hP f hargs w.world _ ⟨s', hs, rfl⟩
  unfold native
  dsimp only
  generalize NativeM.call o f args w.world = p at hcall ⊢
  generalize NativeM.call o f args' _ = q at hcall ⊢
  cases hcall with
  | ok hv hw =>
    obtain ⟨t', ht, rfl⟩ := hw
    exact .ok hv ⟨t', ht, hd, rfl⟩
  | error c hw =>
    obtain ⟨t', ht, rfl⟩ := hw
    exact .error _ ⟨t', ht, hd, rfl⟩

theorem along_callEnv (hP : P.Faithful) {c c' : Closure} (hc : c.Like P c') {args args' : List Value}
    (hargs : List.Forall₂ (Value.Like P) args args') :
    Along P d d' Eq (callEnv c args) (callEnv c' args') := by
  unfold callEnv
  rw [hc.env, hP.params hc.decl]
  refine (along_newEnv _).bind ?_
  rintro e _ rfl
  refine (along_modifyStore fun _ _ hs => hs.defineAll e _ hargs).bind fun _ _ _ => ?_
  exact .pure rfl

theorem along_condition (hP : P.Faithful) {v v' : Value} (hv : v.Like P v') (span : Span) :
    Along P d d' Eq (condition v span) (condition v' span) :=
  along_store.bind fun _ _ hs => along_located span (along_lift (.of_eq (hs.truth hP hv)))

theorem along_callResult {c c' : Closure} (hc : c.Like P c') {flow flow' : Flow}
    (hflow : flow.Like P flow') :
    Along P d d' (Value.Like P) (callResult c flow) (callResult c' flow') := by
  have hcompletes : flow.completes = flow'.completes := by cases hflow <;> rfl
  unfold callResult
  rw [hc.isInit, hc.env, hcompletes]
  split
  · exact along_store.bind fun _ _ hs => along_lift (hs.getAt _ _ _)
  · cases hflow with
    | «return» hv => exact .pure hv
    | next => exact .pure (.plain trivial)
    | «break» => exact .pure (.plain trivial)
    | «continue» => exact .pure (.plain trivial)

theorem along_checkFailure (message : Option String) (attempted : Except Fault Bool) :
    Along P d d' (Flow.Like P) (checkFailure message attempted) (checkFailure message attempted) := by
  cases attempted with
  | ok b => exact along_fail _
  | error f =>
    cases message with
    | none => exact .pure .next
    | some expected =>
      unfold checkFailure
      dsimp only
      split
      · exact .pure .next
      · exact along_fail _

/-! ## All tasks of the walker -/

/-- With `n` units of fuel, every task of the walker does alike on renumbered trees and alike
    values. -/
structure Abreast (o : Options) (P : Pairing) (d d' : Distances) (n : Nat) : Prop where
  expr : ∀ {f} e, AgreeOn f d d' e.ids →
    Along P d d' (Value.Like P) (expr o n e) (expr o n (e.renumber f))
  exprs : ∀ {f} es, AgreeOn f d d' (exprsIds es) →
    Along P d d' (List.Forall₂ (Value.Like P)) (exprs o n es) (exprs o n (exprsRenumber f es))
  call : ∀ {f f' args args'}, f.Like P f' → List.Forall₂ (Value.Like P) args args' → ∀ span,
    Along P d d' (Value.Like P) (call o n f args span) (call o n f' args' span)
  closure : ∀ {c c' args args'}, c.Like P c' → List.Forall₂ (Value.Like P) args args' → ∀ span,
    Along P d d' (Value.Like P) (closure o n c args span) (closure o n c' args' span)
  item : ∀ {f} i, Carries P d d' f i.refs i.declarations →
    Along P d d' (Flow.Like P) (item o n i) (item o n (i.renumber f))
  items : ∀ {f} is, Carries P d d' f (itemsRefs is) (declarationsIn is) →
    Along P d d' (Flow.Like P) (items o n is) (items o n (itemsRenumber f is))
  statement : ∀ {f} i, Carries P d d' f i.refs i.declarations →
    Along P d d' (Flow.Like P) (statement o n i) (statement o n (i.renumber f))
  whileLoop : ∀ {f c b inc}, AgreeOn f d d' c.ids → Carries P d d' f b.refs b.declarations →
    AgreeOn f d d' (optionIds inc) → Along P d d' (Flow.Like P) (whileLoop o n c b inc)
      (whileLoop o n (c.renumber f) (b.renumber f) (inc.map (·.renumber f)))
  repeatLoop : ∀ {f b} times, Carries P d d' f b.refs b.declarations →
    Along P d d' (Flow.Like P) (repeatLoop o n times b) (repeatLoop o n times (b.renumber f))

section

variable {n : Nat}

/-- Expressions that differ in their ids. -/
theorem expr_along (hP : P.Faithful) (ih : Abreast o P d d' n) (e : Expr) (h : AgreeOn f d d' e.ids) :
    Along P d d' (Value.Like P) (expr o (n + 1) e) (expr o (n + 1) (e.renumber f)) := by
  unfold expr
  rw [e.renumber_span]
  refine along_located _ ?_
  cases e with
  | literal value span => exact along_lift (Store.Like.yieldAlike rfl (Value.ofLiteral_inert value))
  | list elements span =>
    refine (ih.exprs elements h).bind fun vs vs' hvs => ?_
    refine (along_update fun _ _ hs => ⟨hs.lists.size.symm, hs.newList hvs⟩).bind ?_
    rintro r _ rfl
    exact .pure (.plain trivial)
  | name ident span => exact along_lookup h.head
  | this ident span => exact along_lookup h.head
  | assign target value span =>
    refine (ih.expr value h.tail).bind fun v v' hv => (along_assign h.head hv).bind fun _ _ _ => ?_
    exact .pure hv
  | unary op operand span =>
    refine (ih.expr operand h).bind fun v v' hv => along_store.bind fun s _ hs => ?_
    exact along_lift (Store.Like.yieldAlike (hs.unary hP op hv) (s.unary_inert op v))
  | binary left op right span =>
    refine (ih.expr left h.left).bind fun l l' hl => (ih.expr right h.right).bind fun r r' hr => ?_
    refine along_store.bind fun s _ hs => ?_
    exact along_lift (Store.Like.yieldAlike (hs.binary hP op hl hr) (s.binary_inert op l r))
  | logical left op right span =>
    refine (ih.expr left h.left).bind fun l l' hl => (ih.expr right h.right).bind fun r r' hr => ?_
    refine along_store.bind fun s _ hs => ?_
    exact along_lift (Store.Like.yieldAlike (hs.logical hP op hl hr) (s.logical_inert op l r))
  | group inner span => exact ih.expr inner h
  | call callee args span =>
    refine (ih.exprs args h.right).bind fun vs vs' hvs => (ih.expr callee h.left).bind fun f f' hf => ?_
    exact ih.call hf hvs span
  | getField object field span =>
    exact (ih.expr object h).bind fun v v' hv => along_member hP hv field
  | setField object field value span =>
    refine (ih.expr object h.left).bind fun ob ob' hob => (along_asInstance hP hob).bind ?_
    rintro r _ rfl
    refine (ih.expr value h.right).bind fun v v' hv => ?_
    refine (along_modifyStore fun _ _ hs => hs.setField r field hv).bind fun _ _ _ => ?_
    exact .pure hv
  | super ident method span => exact along_superMethod h.head method

/-- Calls of values that are alike. -/
theorem call_along (ho : o.OpaqueHost) (hP : P.Faithful) (ih : Abreast o P d d' n) {f f' : Value}
    {args args' : List Value} (hf : f.Like P f') (hargs : List.Forall₂ (Value.Like P) args args')
    (span : Span) :
    Along P d d' (Value.Like P) (call o (n + 1) f args span) (call o (n + 1) f' args' span) := by
  unfold call
  refine along_store.bind fun s s' hs => ?_
  have harity {c c' : Callable} (hc : (Value.callable c).Like P (.callable c')) :
      Along P d d' Eq (lift (s.checkArity c args.length)) (lift (s'.checkArity c' args'.length)) := by
    rw [hargs.length_eq]
    exact along_lift (.of_eq (hs.checkArity hP hc _))
  have ht := hs.repr hP hf
  cases hf with
  | closure hc => exact (harity (.closure hc)).bind fun _ _ _ => ih.closure hc hargs span
  | plain hp =>
    cases f with
    | callable c =>
      refine (harity (.plain hp)).bind fun _ _ _ => ?_
      cases c with
      | native f => exact along_native ho hP f hargs
      | closure c => exact hp.elim
      | classRef r =>
        refine (along_update fun _ _ hs => ⟨hs.instances.size.symm, hs.newInstance r⟩).bind ?_
        rintro i _ rfl
        refine along_store.bind fun t t' ht => ?_
        obtain ⟨hx, hy⟩ | ⟨m, m', hx, hy, hm⟩ := rel_cases (ht.findMethod? r "init")
        · rw [hx, hy]
          exact .pure (.plain trivial)
        · rw [hx, hy]
          refine (along_update fun _ _ hs => hs.bind hm i).bind fun b b' hb => ?_
          exact (ih.closure hb hargs span).bind fun _ _ _ => .pure (.plain trivial)
    | _ =>
      dsimp only
      rw [ht]
      exact along_fail _

/-- Calls of functions that are paired. -/
theorem closure_along (hP : P.Fits d d') (ih : Abreast o P d d' n) {c c' : Closure}
    {args args' : List Value} (hc : c.Like P c') (hargs : List.Forall₂ (Value.Like P) args args')
    (span : Span) :
    Along P d d' (Value.Like P) (closure o (n + 1) c args span)
      (closure o (n + 1) c' args' span) := by
  obtain ⟨f, hdecl, hbody⟩ := hP.like hc.decl
  unfold closure
  rw [hP.faithful.name hc.decl, hdecl, FunctionDecl.renumber_eq]
  refine Parallel.get.bind ?_
  rintro w _ ⟨s', hs, hd, rfl⟩
  dsimp only
  split
  · exact (along_fail (A := fun _ _ => False) _).bind fun _ _ h => h.elim
  · refine (along_callEnv hP.faithful hc hargs).bind ?_
    rintro e _ rfl
    refine (along_inCall _ (along_inEnv e (ih.items _ hbody))).bind fun flow flow' hflow => ?_
    exact along_callResult hc hflow

/-- Declares a variable with a value that was computed before. -/
theorem along_declare (name : String) {v v' : Value} (hv : v.Like P v') :
    Along P d d' (Flow.Like P)
      (do
        onStore (Store.declare (← get).env name v)
        return .next)
      (do
        onStore (Store.declare (← get).env name v')
        return .next) := by
  refine Parallel.get.bind ?_
  rintro w _ ⟨s', hs, hd, rfl⟩
  exact (along_onStore (Store.declare_parallel _ name hv)).bind fun _ _ _ => .pure .next

/-- Executes a class statement whose superclass was computed before. -/
theorem along_declareClass (hP : P.Faithful) (name : String) {x x' : Option Value}
    (hx : Option.Rel (Value.Like P) x x') {ms ms' : List FunctionDecl} (hms : List.Forall₂ P ms ms') :
    Along P d d' (Flow.Like P)
      (do
        onStore (Store.declareClass (← get).env name x ms)
        return .next)
      (do
        onStore (Store.declareClass (← get).env name x' ms')
        return .next) := by
  refine Parallel.get.bind ?_
  rintro w _ ⟨s', hs, hd, rfl⟩
  exact (along_onStore (Store.declareClass_parallel hP _ name hx hms)).bind fun _ _ _ => .pure .next

/-- Statements that differ in their ids. -/
theorem statement_along (hP : P.Faithful) (ih : Abreast o P d d' n) (i : Item)
    (h : Carries P d d' f i.refs i.declarations) :
    Along P d d' (Flow.Like P) (statement o (n + 1) i) (statement o (n + 1) (i.renumber f)) := by
  unfold statement
  cases i with
  | expr e span => exact (ih.expr e h.agree).bind fun _ _ _ => .pure .next
  | var name init span =>
    cases init with
    | some e => exact (ih.expr e h.agree).bind fun v v' hv => along_declare name hv
    | none => exact along_declare name (.plain trivial)
  | block items span =>
    refine Parallel.get.bind ?_
    rintro w _ ⟨s', hs, hd, rfl⟩
    refine (along_newEnv _).bind ?_
    rintro e _ rfl
    exact along_inEnv e (ih.items items h)
  | ifThen c t span =>
    refine (ih.expr c h.agree.left).bind fun v v' hv => ?_
    rw [c.renumber_span]
    refine (along_condition hP hv _).bind ?_
    rintro b _ rfl
    cases b with
    | true => exact ih.item t h.behind
    | false => exact .pure .next
  | ifElse c t e span =>
    refine (ih.expr c h.agree.left).bind fun v v' hv => ?_
    rw [c.renumber_span]
    refine (along_condition hP hv _).bind ?_
    rintro b _ rfl
    cases b with
    | true => exact ih.item t h.behind.left
    | false => exact ih.item e h.behind.right
  | «while» c body inc span =>
    exact ih.whileLoop h.agree.left h.behind.before h.behind.agree.right
  | «repeat» count body span =>
    refine (ih.expr count h.agree.left).bind fun v v' hv => along_store.bind fun _ _ hs => ?_
    rw [count.renumber_span]
    refine (along_located _ (along_lift (.of_eq (hs.rounds hP hv)))).bind ?_
    rintro times _ rfl
    exact ih.repeatLoop times h.behind
  | «return» value span =>
    cases value with
    | some e => exact (ih.expr e h.agree).bind fun v v' hv => .pure (.return hv)
    | none => exact .pure (.return (.plain trivial))
  | «break» span => exact .pure .break
  | «continue» span => exact .pure .continue
  | assert c message span =>
    refine (ih.expr c h.agree).bind fun v v' hv => along_store.bind fun _ _ hs => ?_
    refine (along_lift (.of_eq (hs.truth hP hv))).bind ?_
    rintro b _ rfl
    cases b with
    | true => exact .pure .next
    | false => exact along_fail _
  | assertFails e message span =>
    dsimp only [Item.renumber]
    rw [e.renumber_span]
    refine (along_attempt ((ih.expr e h.agree).bind fun _ _ hv => along_condition hP hv _)).bind ?_
    rintro attempted _ rfl
    exact along_checkFailure message attempted
  | function decl span =>
    have hd := h.paired decl decl.mem_declarations
    refine Parallel.get.bind ?_
    rintro w _ ⟨s', hs, -, rfl⟩
    have hf {e : EnvRef} : Closure.Like P ⟨decl, e, false⟩ ⟨decl.renumber f, e, false⟩ := ⟨hd, rfl, rfl⟩
    dsimp only
    rw [hP.name hd]
    exact (along_define _ _ (.closure hf)).bind fun _ _ _ => .pure .next
  | «class» name parent methods span =>
    have hms := methods_paired methods h.paired
    cases parent with
    | some i =>
      refine ((along_lookup h.agree.left.head).map fun _ _ hv => Option.Rel.some hv).bind ?_
      exact fun _ _ hx => along_declareClass hP name hx hms
    | none => exact along_declareClass hP name .none hms

theorem afterRound_like {flow flow' : Flow} (h : flow.Like P flow') :
    Option.Rel (Flow.Like P) (afterRound flow) (afterRound flow') := by
  cases h with
  | next => exact .none
  | «return» hv => exact .some (.return hv)
  | «break» => exact .some .next
  | «continue» => exact .none

/-- A round of a `while` or `for`, and those after it. -/
theorem whileLoop_along (hP : P.Faithful) (ih : Abreast o P d d' n) {c : Expr} {b : Item}
    {inc : Option Expr} (hc : AgreeOn f d d' c.ids) (hb : Carries P d d' f b.refs b.declarations)
    (hinc : AgreeOn f d d' (optionIds inc)) :
    Along P d d' (Flow.Like P) (whileLoop o (n + 1) c b inc)
      (whileLoop o (n + 1) (c.renumber f) (b.renumber f) (inc.map (·.renumber f))) := by
  unfold whileLoop
  refine (ih.expr c hc).bind fun v v' hv => ?_
  rw [c.renumber_span]
  refine (along_condition hP hv _).bind ?_
  rintro go _ rfl
  cases go with
  | false => exact .pure .next
  | true =>
    refine (ih.item b hb).bind fun flow flow' hflow => ?_
    obtain ⟨hx, hy⟩ | ⟨f, f', hx, hy, hf⟩ := rel_cases (afterRound_like hflow)
    · rw [hx, hy]
      have hround := ih.whileLoop hc hb hinc
      cases inc with
      | some e => exact (ih.expr e hinc).bind fun _ _ _ => hround
      | none => exact hround
    · rw [hx, hy]
      exact .pure hf

theorem repeatLoop_along (ih : Abreast o P d d' n) {b : Item} (times : Nat)
    (hb : Carries P d d' f b.refs b.declarations) :
    Along P d d' (Flow.Like P) (repeatLoop o (n + 1) times b)
      (repeatLoop o (n + 1) times (b.renumber f)) := by
  cases times with
  | zero => exact .pure .next
  | succ times =>
    unfold repeatLoop
    refine (ih.item b hb).bind fun flow flow' hflow => ?_
    obtain ⟨hx, hy⟩ | ⟨f, f', hx, hy, hf⟩ := rel_cases (afterRound_like hflow)
    · rw [hx, hy]
      exact ih.repeatLoop times hb
    · rw [hx, hy]
      exact .pure hf

/-- Every task of the walker does alike on renumbered trees, however much fuel there is. -/
theorem abreast (ho : o.OpaqueHost) (hP : P.Fits d d') (n : Nat) : Abreast o P d d' n := by
  induction n with
  | zero =>
    constructor
    all_goals
      intros
      exact Parallel.throw _
  | succ n ih =>
    refine ⟨expr_along hP.faithful ih, ?_, call_along ho hP.faithful ih, closure_along hP ih, ?_, ?_,
      statement_along hP.faithful ih, whileLoop_along hP.faithful ih, repeatLoop_along ih⟩
    · intro f es h
      cases es with
      | nil => exact .pure .nil
      | cons e es =>
        refine (ih.expr e h.left).bind fun v v' hv => (ih.exprs es h.right).bind fun vs vs' hvs => ?_
        exact .pure (.cons hv hvs)
    · intro f i h
      unfold item
      rw [i.renumber_span]
      refine (along_poll _).bind fun _ _ _ => along_tally.bind fun _ _ _ => ?_
      exact along_located _ (ih.statement i h)
    · intro f is h
      cases is with
      | nil => exact .pure .next
      | cons i is =>
        refine (ih.item i h.left).bind fun flow flow' hflow => ?_
        cases hflow with
        | next => exact ih.items is h.right
        | «return» hv => exact .pure (.return hv)
        | «break» => exact .pure .break
        | «continue» => exact .pure .continue

/-- Programs that differ in their ids end alike. -/
theorem program_along (ho : o.OpaqueHost) (hP : P.Fits d d') (n : Nat) {is : List Item}
    (h : Carries P d d' f (itemsRefs is) (declarationsIn is)) :
    Along P d d' Eq (program o n is) (program o n (itemsRenumber f is)) := by
  induction is generalizing n with
  | nil =>
    cases n with
    | zero => exact .throw _
    | succ n => exact .pure rfl
  | cons i is ih =>
    cases n with
    | zero => exact .throw _
    | succ n => exact ((abreast ho hP n).item i h.left).bind fun _ _ _ => ih n h.right

end

end Walk

end Eleu

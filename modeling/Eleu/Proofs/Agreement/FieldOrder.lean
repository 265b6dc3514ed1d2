import Eleu.Proofs.Agreement.Executors

/-! # The order of a field assignment

    Both executors evaluate the object of a field assignment first. The walker then asks whether it is
    an instance, and evaluates the assigned value only if so. The machine evaluates the value in any
    case and asks afterwards: what it does is not `Walk.expr` but `Walk.setFieldLate`. The two come to
    the same unless the object is no instance and the value has effects, a fault of its own, or no
    end. -/

namespace Eleu

open Outcome

/-- A field assignment that tests its object last. -/
def Walk.setFieldLate (o : Options) (n n' : Nat) (object : Expr) (field : String) (value : Expr)
    (span : Span) : Walk Value :=
  located span do
    let x ← expr o n object
    let v ← expr o n' value
    let r ← asInstance x
    modifyStore (·.setField r field v)
    return v

/-- The walker `w` and the machine `m` correspond to each other, and both are about to evaluate `e`: the
    machine stands at the code of `e`, and `e` has its place in a program that was resolved. -/
structure Corresponds (D : List FunctionDecl) (T : List Reference) (d : Distances) (a : Activation)
    (ip : Nat) (st : List Value) (e : Expr) (code : List Instr) (w : Walker) (m : Machine) : Prop where
  ids : ∀ a ∈ D, ∀ b ∈ D, a.id = b.id → a = b
  placed : ∀ n, Visit.Placed (.plain D T d) ⟨n, .expr e, w⟩
  mirrors : m.Mirrors D d a ip st w
  compiled : exprCode d e = .ok code
  segment : Segment a.code ip code

/-- The machine `m` evaluates an expression whose code ends at `next` as `act` does it in the state `w`.
    If some fuel suffices, the machine comes to the same value or to the same fault, in the same world
    up to the dump; if none does, it goes on for ever. -/
structure Machine.Evaluates (o : Options) (D : List FunctionDecl) (d : Distances) (a : Activation)
    (st : List Value) (next : Nat) (act : Nat → Walk Value) (w : Walker) (m : Machine) : Prop where
  ends : ∀ n, Simulates o D d False a st 0 (fun v w' m' => m'.Mirrors D d a next (v :: st) w') m
    (act n w)
  lasts : (∀ n, ∃ w', act n w = .error .outOfFuel w') → ∀ k, m.Lasts o k

variable {o : Options} {D : List FunctionDecl} {T : List Reference} {d : Distances} {a : Activation}
  {ip n n' : Nat} {st : List Value} {object value : Expr} {field : String} {span : Span}
  {code : List Instr} {w w' : Walker} {m : Machine} {x v : Value}

/-! ## The walker -/

namespace Walk

theorem asInstance_other (hx : ∀ r, x ≠ .object r) :
    asInstance x w = .error (.fault { cause := .notInstance (w.world.store.repr x) }) w := by
  cases x with
  | object r => exact absurd rfl (hx r)
  | nil | bool | number | string | list | callable => rfl

/-- The walker rejects an object that is no instance at once. -/
theorem expr_setField_other (hobject : expr o n object w = .ok x w') (hx : ∀ r, x ≠ .object r) :
    expr o (n + 1) (.setField object field value span) w
      = .error (.fault { cause := .notInstance (w'.world.store.repr x), span := some span }) w' := by
  rw [expr]
  unfold located
  simp only [bind_apply, hobject, asInstance_other hx]
  rfl

/-- With the test at the end, the object is rejected after the value was evaluated. -/
theorem setFieldLate_other {w'' : Walker} (hobject : expr o n object w = .ok x w')
    (hvalue : expr o n' value w' = .ok v w'') (hx : ∀ r, x ≠ .object r) :
    setFieldLate o n n' object field value span w
      = .error (.fault { cause := .notInstance (w''.world.store.repr x), span := some span }) w'' := by
  unfold setFieldLate located
  simp only [bind_apply, hobject, hvalue, asInstance_other hx]
  rfl

/-- If the object is an instance, or does not come to a value, it does not matter when it is tested. -/
theorem expr_setField_eq (h : ∀ x w', expr o n object w = .ok x w' → ∃ r, x = .object r) :
    expr o (n + 1) (.setField object field value span) w
      = setFieldLate o n n object field value span w := by
  rw [expr]
  refine located_congr ?_
  rw [bind_apply, bind_apply]
  cases hobject : expr o n object w with
  | error i w' => rfl
  | ok x w' =>
    obtain ⟨r, rfl⟩ := h x w' hobject
    rfl

end Walk

/-! ## The machine -/

/-- The instruction that assigns to a field tests the object, which lies below the value. -/
theorem Matches.setFieldLate (h : m.Mirrors D d a ip (v :: x :: st) w) :
    Pushes D d a ip st ((do
        let r ← Walk.asInstance x
        Walk.modifyStore (·.setField r field v)
        return v : Walk Value) w)
      (Exec.execute o ⟨.setField field, span⟩ m) := by
  by_cases hx : ∃ r, x = .object r
  · obtain ⟨r, rfl⟩ := hx
    rw [Exec.execute_setField h.stack, h.store]
    exact .ok ((h.setStack _).inStore rfl)
  · have hx : ∀ r, x ≠ .object r := fun r hr => hx ⟨r, hr⟩
    rw [Exec.execute_setField_other h.stack hx, h.store, bind_apply, Walk.asInstance_other hx]
    exact .fault ((h.setStack st).struck (List.suffix_refl st))

namespace Corresponds

variable (h : Corresponds D T d a ip st (.setField object field value span) code w m)

include h

/-- The object of a field assignment has its place. -/
theorem placed_object (n : Nat) : Visit.Placed (.plain D T d) ⟨n, .expr object, w⟩ := by
  obtain ⟨p, Γ, hfollows, hchain⟩ := (h.placed n).task
  exact (h.placed n).here ⟨p, Γ, hfollows.1, hchain⟩

/-- So does the value, once the object is evaluated, whatever it is. -/
theorem placed_value (ho : o.TameHost) (hobject : Walk.expr o n object w = .ok x w') (n' : Nat) :
    Visit.Placed (.plain D T d) ⟨n', .expr value, w'⟩ := by
  obtain ⟨p, Γ, hfollows, hchain⟩ := (h.placed n).task
  obtain ⟨hkept, -, hchain'⟩ := Visit.Placed.next ho (h.placed (n + 1))
    (fun _ _ => .all _) hfollows.1 hchain hobject
  exact (h.placed n).later hkept ⟨p, Γ, hfollows.2, hchain'⟩

/-- The machine does what an assignment does that tests its object last. -/
theorem simulates_late (ho : o.TameHost) (hb : o.BlindHost) (hcancel : o.cancel = none)
    (hobject : ¬ Visit.GoesAstray o ⟨n, .expr object, w⟩)
    (hvalue : ∀ x w', Walk.expr o n object w = .ok x w' → ¬ Visit.GoesAstray o ⟨n', .expr value, w'⟩)
    {B k : Nat} (hpos : 0 < B) (hB : ∀ decl ∈ D, 3 * sizeOf decl.body ≤ B)
    (hfuel : Enough B (3 * sizeOf object) k n) (hfuel' : Enough B (3 * sizeOf value) k n') :
    Simulates o D d False a st k (fun v w' m' => m'.Mirrors D d a (ip + code.length) (v :: st) w') m
      (Walk.setFieldLate o n n' object field value span w) := by
  have hcode := h.compiled
  simp only [exprCode, except_bind_eq_ok, Except.ok.injEq] at hcode
  obtain ⟨os, hos, vs, hvs, rfl⟩ := hcode
  obtain ⟨hseg, hi, -⟩ := Segment.append.1 h.segment
  obtain ⟨hfirst, hsecond⟩ := Segment.append.1 hseg
  have hsim := Visit.simulated ho hb hcancel h.ids hpos hB n (.expr object) w (h.placed_object n)
  refine .bind_located ((hsim hos hfirst h.mirrors hfuel).mono hobject fun _ _ _ hm => hm) ?_
  intro x w₁ m₁ hx hm₁
  have hsim' := Visit.simulated ho hb hcancel h.ids hpos hB n' (.expr value) w₁
    (h.placed_value ho hx n')
  refine .bind_located (((hsim' hvs hsecond hm₁ hfuel').mono (hvalue x w₁ hx) fun _ _ _ hm =>
    hm).of_suffix (List.suffix_cons x st)) ?_
  intro v w₂ m₂ _ hm₂
  simp only [List.length_append, ← Nat.add_assoc] at hi ⊢
  exact .exec hm₂ hi fun m₃ h₃ => .setFieldLate h₃

end Corresponds

/-! ## Where the two orders agree -/

section Orders

variable (ho : o.TameHost) (hb : o.BlindHost) (hcancel : o.cancel = none)
  (h : Corresponds D T d a ip st (.setField object field value span) code w m)
  (hobject : ∀ n, ¬ Visit.GoesAstray o ⟨n, .expr object, w⟩)
  (hvalue : ∀ n x w', Walk.expr o n object w = .ok x w' →
    ∀ n', ¬ Visit.GoesAstray o ⟨n', .expr value, w'⟩)

include ho hb hcancel h hobject hvalue

/-- Whatever the fuel. -/
theorem Corresponds.simulates_zero (n n' : Nat) :
    Simulates o D d False a st 0 (fun v w' m' => m'.Mirrors D d a (ip + code.length) (v :: st) w') m
      (Walk.setFieldLate o n n' object field value span w) := by
  obtain ⟨B, hpos, hB⟩ := exists_bound D
  exact h.simulates_late ho hb hcancel (hobject n) (fun x w' hx => hvalue n x w' hx n') hpos hB
    (.inl rfl) (.inl rfl)

/-- The machine evaluates every field assignment in its own order. -/
theorem Corresponds.evaluates_late :
    m.Evaluates o D d a st (ip + code.length)
      (fun n => Walk.setFieldLate o n n object field value span) w where
  ends n := h.simulates_zero ho hb hcancel hobject hvalue n n
  lasts hfuel k := by
    obtain ⟨B, hpos, hB⟩ := exists_bound D
    -- fuel that suffices for both operands and for `k` calls or rounds
    let n := 3 * sizeOf object + 3 * sizeOf value + k * B
    have hsim := h.simulates_late ho hb hcancel (hobject n) (fun x w' hx => hvalue n x w' hx n)
      (k := k) hpos hB (.inr (by omega)) (.inr (by omega))
    obtain ⟨w', hw'⟩ := hfuel n
    rw [hw'] at hsim
    cases hsim with
    | astray hv => exact hv.elim
    | outOfFuel hl => exact hl

/-- The machine evaluates a field assignment as the walker does, unless the object is no instance and it
    makes a difference whether the value is evaluated. -/
theorem Corresponds.evaluates_expr
    (hfits : ∀ n x w', Walk.expr o n object w = .ok x w' →
      (∃ r, x = .object r) ∨ ∃ n' v, Walk.expr o n' value w' = .ok v w') :
    m.Evaluates o D d a st (ip + code.length)
      (fun n => Walk.expr o n (.setField object field value span)) w where
  ends n := by
    cases n with
    | zero => exact .outOfFuel (.zero m)
    | succ n =>
      by_cases hx : ∀ x w', Walk.expr o n object w = .ok x w' → ∃ r, x = .object r
      · rw [Walk.expr_setField_eq hx]
        exact h.simulates_zero ho hb hcancel hobject hvalue n n
      · simp only [not_forall, not_exists] at hx
        obtain ⟨x, w', hx, hother⟩ := hx
        obtain ⟨n', v, hv⟩ := (hfits n x w' hx).resolve_left fun ⟨r, hr⟩ => hother r hr
        rw [Walk.expr_setField_other hx hother, ← Walk.setFieldLate_other hx hv hother]
        exact h.simulates_zero ho hb hcancel hobject hvalue n n'
  lasts hfuel := by
    refine (h.evaluates_late ho hb hcancel hobject hvalue).lasts fun n => ?_
    obtain ⟨w', hw'⟩ := hfuel (n + 1)
    refine ⟨w', ?_⟩
    rw [← hw', Walk.expr_setField_eq]
    intro x w₁ hx
    -- an object that is no instance would have ended the assignment
    by_contra hother
    have hother : ∀ r, x ≠ .object r := fun r hr => hother ⟨r, hr⟩
    rw [Walk.expr_setField_other hx hother] at hw'
    exact nomatch hw'

end Orders

/-- Fresh executors correspond when they set about a program that begins with an expression. -/
theorem Corresponds.beginning {recovery : Recovery} {unit : Nat} {file source : String} {e : Expr}
    {span : Span} {is : List Item}
    (parsed : parseText recovery unit file source = .ok (.expr e span :: is))
    (hr : resolve (.expr e span :: is) = .ok d) (ns : List HostNative) :
    ∃ a code, Corresponds (declarationsIn (.expr e span :: is))
      (itemsReferences [] (.expr e span :: is)) (({} : Distances).union d) a 0 [] e code
      (.beginning ns d) (.beginning ns (.expr e span :: is)) := by
  obtain ⟨hids, hexact⟩ := parseText_exact parsed hr
  obtain ⟨chunk, hchunk⟩ := programChunk_total "script" hexact
  have hmirrors := Machine.Mirrors.beginning ns hr hchunk (declarationsIn (.expr e span :: is))
  simp only [programChunk, itemsCode, itemCode, except_bind_eq_ok, Except.ok.injEq] at hchunk
  obtain ⟨-, ⟨-, ⟨code, hcode, rfl⟩, rest, -, rfl⟩, rfl⟩ := hchunk
  obtain ⟨hfirst, -⟩ := Segment.append.1
    (Activation.segment_ofProgram "script" (code ++ [⟨.pop, span⟩] ++ rest))
  have hplaced : Visit.Placed (.plain (declarationsIn (.expr e span :: is))
      (itemsReferences [] (.expr e span :: is)) (({} : Distances).union d))
      ⟨0, .program (.expr e span :: is), .beginning ns d⟩ := .program_exact 0 hexact
  obtain ⟨Γ, hprogram, hchain⟩ := hplaced.task
  exact ⟨_, code, {
    ids := hids
    placed := fun n => hplaced.here ⟨none, Γ, hprogram.1, hchain⟩
    mirrors := hmirrors
    compiled := hcode
    segment := (Segment.append.1 hfirst).1 }⟩

/-- Both executors evaluate the object of a field assignment first. If it is an instance, or if the value
    then comes to a result without effects, they do the same, and end with the same value or the same
    fault. Otherwise they do not: the walker rejects the object at once, and the machine does so after
    it has evaluated the value. -/
theorem field_assignment_orders (o : Options) (ho : o.TameHost) (hb : o.BlindHost)
    (hcancel : o.cancel = none)
    (h : Corresponds D T d a ip st (.setField object field value span) code w m)
    (hobject : ∀ n, ¬ Visit.GoesAstray o ⟨n, .expr object, w⟩)
    (hvalue : ∀ n x w', Walk.expr o n object w = .ok x w' →
      ∀ n', ¬ Visit.GoesAstray o ⟨n', .expr value, w'⟩) :
    ((∀ n x w', Walk.expr o n object w = .ok x w' →
        (∃ r, x = .object r) ∨ ∃ n' v, Walk.expr o n' value w' = .ok v w') →
      m.Evaluates o D d a st (ip + code.length)
        (fun n => Walk.expr o n (.setField object field value span)) w)
      ∧ (∀ n x w', Walk.expr o n object w = .ok x w' → (∀ r, x ≠ .object r) →
        Walk.expr o (n + 1) (.setField object field value span) w = .error
          (.fault { cause := .notInstance (w'.world.store.repr x), span := some span }) w')
      ∧ m.Evaluates o D d a st (ip + code.length)
        (fun n => Walk.setFieldLate o n n object field value span) w :=
  ⟨h.evaluates_expr ho hb hcancel hobject hvalue,
    fun _ _ _ hx hother => Walk.expr_setField_other hx hother,
    h.evaluates_late ho hb hcancel hobject hvalue⟩

/-- A literal leads to nothing else. -/
theorem Visit.not_goesAstray_literal (value : Literal) (span : Span) (n : Nat) (w : Walker) :
    ¬ GoesAstray o ⟨n, .expr (.literal value span), w⟩ := by
  rintro ⟨v, hl, hs⟩
  rcases Relation.ReflTransGen.cases_head hl with rfl | ⟨v', hc, -⟩
  · cases hs
  · cases hc

/-- Whether an expression is the literal for truth. -/
def Expr.isTrue : Expr → Bool
  | .literal (.bool true) _ => true
  | _ => false

theorem Expr.eq_of_isTrue {e : Expr} (h : e.isTrue = true) : ∃ span, e = .literal (.bool true) span := by
  unfold Expr.isTrue at h
  split at h
  · exact ⟨_, rfl⟩
  · cases h

/-- The value that is assigned to a field of nil has no effects here, so that both executors end with
    the same fault. -/
theorem field_assignment_orders_nil : ∃ (items : List Item) (e : Expr) (span : Span)
    (D : List FunctionDecl) (d : Distances) (a : Activation) (next : Nat),
    parseText .resume 0 "" "nil.x = true;" = .ok items ∧ items = [.expr e span]
      ∧ (Machine.beginning [] items).Evaluates {} D (({} : Distances).union d) a [] next
        (fun n => Walk.expr {} n e) (.beginning [] d) := by
  have hcheck : ((parseText .resume 0 "" "nil.x = true;").toOption.any fun items =>
      (nilField? items).any fun p => p.2.2.1.isTrue) = true := by
    decide +kernel
  obtain ⟨items, hparsed, hcheck⟩ := Outcome.any_toOption.1 hcheck
  obtain ⟨⟨s₁, field, value, s₂, s₃⟩, hfield, hcheck⟩ := (Option.any_eq_true _ _).1 hcheck
  obtain rfl := eq_of_nilField? hfield
  obtain ⟨s, rfl⟩ := Expr.eq_of_isTrue hcheck
  obtain ⟨d, hr⟩ : ∃ d, resolve [.expr (.setField (.literal .nil s₁) field
    (.literal (.bool true) s) s₂) s₃] = .ok d := ⟨_, rfl⟩
  obtain ⟨a, code, h⟩ := Corresponds.beginning hparsed hr []
  have horders := field_assignment_orders {} tameHost_default Options.blindHost_default rfl h
    (fun n => Visit.not_goesAstray_literal _ _ n _)
    fun _ _ w' _ n' => Visit.not_goesAstray_literal _ _ n' w'
  exact ⟨_, _, _, _, d, a, _, hparsed, rfl, horders.1 fun _ _ _ _ => .inr ⟨1, .bool true, rfl⟩⟩

/-- Where the object is no instance and the value has effects, they differ: the machine prints a line
    that the walker never prints. -/
theorem field_assignment_orders_differ : ∃ (items : List Item) (m : Machine),
    parseText .resume 0 "" "nil.x = print(1);" = .ok items
      ∧ (Machine.fresh.withNatives []).run {} 5 items = (some .runtimeError, m)
      ∧ m.world.journal.out = #["1"]
      ∧ ∀ n v w, (Walker.fresh.withNatives []).run {} n items = (some v, w) →
          w.world.journal.out = #[] := by
  have hcheck : ((parseText .resume 0 "" "nil.x = print(1);").toOption.any fun items =>
      (nilField? items).isSome && (resolve items).toOption.isSome
        && (fun (r : Option Verdict × Walker) (r' : Option Verdict × Machine) =>
          decide (r.2.world.journal.out = #[] ∧ r'.1 = some .runtimeError
            ∧ r'.2.world.journal.out = #["1"]))
          ((Walker.fresh.withNatives []).run {} 5 items)
          ((Machine.fresh.withNatives []).run {} 5 items)) = true := by
    decide +kernel
  obtain ⟨items, hparsed, hcheck⟩ := Outcome.any_toOption.1 hcheck
  simp only [Bool.and_eq_true, decide_eq_true_eq, Option.isSome_iff_exists] at hcheck
  obtain ⟨⟨⟨⟨s₁, field, value, s₂, s₃⟩, hfield⟩, d, hr⟩, hwalker, hm, hmachine⟩ := hcheck
  obtain rfl := eq_of_nilField? hfield
  have hr := Outcome.toOption_eq_some.1 hr
  refine ⟨_, _, hparsed, Prod.ext hm rfl, hmachine, fun n v w hw => ?_⟩
  rw [Walker.run_eq [] hr] at hw
  rcases Walk.program_nil_field s₁ s₂ s₃ field value (.beginning [] d) n with hn | ⟨w', hn⟩
  · rw [hn, ← Walker.run_eq [] hr] at hw
    rw [hw] at hwalker
    exact hwalker
  · rw [hn] at hw
    cases hw

end Eleu

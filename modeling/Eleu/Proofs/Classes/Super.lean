import Eleu.Proofs.Scope.Distances

/-! # Super dispatch is static

    Where `super` stands in a method is known from the text, and by then the class statement around it
    has said once and for all which class it denotes. So `super.m` finds the method of the superclass of
    the class that has the method around it, and binds it to the instance of that method
    (`super_static`): neither the class of the instance nor what has become of the names of the classes
    counts, and what the superclass has as its method `m` is looked up when the expression is
    evaluated. -/

namespace Eleu

variable {o : Options} {D : List FunctionDecl} {T : List Reference} {H : History} {s : Store} {e : EnvRef}

/-- Every method of a class closes over the environment of a class statement that has added it. -/
def History.MethodsClose (H : History) (s : Store) : Prop :=
  ∀ q x c, (s.classAt q).methods.get? x = some c → ∃ e, H.added e q c ∧ s.Closes q c e

theorem Store.Obeys.methodsClose {S : Setting} (h : s.Obeys S.law) : S.history.MethodsClose s := by
  intro q x c hc
  obtain ⟨-, Γ, -, -, -, hadded⟩ := h.methods hc
  exact hadded

/-! ## Uses of `super` -/

/-- The reference `r` uses `super` in the environment `e`, which is `k` scopes inside the environment `a`
    where the method `c` of the class `q` was bound to the instance `i`. The class statement around the
    reference has made the environment that the method closes over, where `super` is the superclass
    `p` of `q`. -/
structure Reference.UsesSuper (T : List Reference) (H : History) (s : Store) (e : EnvRef) (k : Nat)
    (a : EnvRef) (i : InstanceRef) (c : Closure) (q p : ClassRef) (r : Reference) : Prop where
  listed : r ∈ T
  inMethod : r.context[k]? = some { site := .this, names := ["this"] }
  inClass : ∃ span, r.context[k + 1]? = some { site := .super span, names := ["super"] }
    ∧ H.made c.env (.super span)
  out : s.ancestor? e k = some a
  this : s.local? a "this" = some (.object i)
  around : s.parent? a = some c.env
  method : ∃ b, H.added b q c ∧ s.Closes q c b
  superclass : s.superclass? q = some p

/-- The distance of `super` leads through the scope of `this` to the scope of `super`. -/
theorem Chain.usesSuper {r : Reference} {depth : Option Nat} (h : (Rules.resolved D T).supers r depth)
    (hc : Chain H s e r.context) :
    ∃ k a i c q p, depth = some (k + 1) ∧ r.UsesSuper T H s e k a i c q p := by
  obtain ⟨hmem, -, k, span, hdepth, hthis, hsuper⟩ := h
  obtain ⟨hlt, hget⟩ := List.getElem?_eq_some_iff.1 hthis
  obtain ⟨hlt', hget'⟩ := List.getElem?_eq_some_iff.1 hsuper
  obtain ⟨a, ha, hca⟩ := hc.ancestor (Nat.le_of_lt hlt)
  rw [List.drop_eq_getElem_cons hlt, hget, List.drop_eq_getElem_cons hlt', hget'] at hca
  obtain ⟨⟨⟨i, hi⟩, -⟩, hbound, b, hb, ⟨⟨hmade, -⟩, -⟩, -⟩ := hca
  obtain ⟨q, c, ⟨hplain, hadded⟩, haround⟩ := hbound rfl
  obtain rfl : c.env = b := Option.some.inj (haround.symm.trans hb)
  cases hp : s.superclass? q with
  | none => exact absurd rfl (hplain hp _ rfl span)
  | some p =>
    exact ⟨k, a, i, c, q, p, hdepth, hmem, hthis, ⟨span, hsuper, hmade⟩, ha, hi, haround, hadded, hp⟩

namespace Reference.UsesSuper

variable {r : Reference} {k : Nat} {a : EnvRef} {i : InstanceRef} {c : Closure} {q p : ClassRef}

theorem getAt_this (h : r.UsesSuper T H s e k a i c q p) : s.getAt e "this" k = .ok (.object i) :=
  Store.getAt_of_local h.out h.this

theorem getAt_super (h : r.UsesSuper T H s e k a i c q p) :
    s.getAt e "super" (k + 1) = .ok (.callable (.classRef p)) := by
  obtain ⟨b, -, hcloses⟩ := h.method
  refine Store.getAt_of_local ?_ (hcloses.super h.superclass).1
  rw [Store.ancestor?_add, h.out]
  show s.ancestor? a 1 = some c.env
  rw [Store.ancestor?_succ, show (s.env a).parent = some c.env from h.around]
  rfl

/-- What is found is the method that the superclass has or inherits. -/
theorem findSuper (h : r.UsesSuper T H s e k a i c q p) (method : String) :
    s.findSuper e (k + 1) method
      = (s.findMethod? p method).elim (.error (.undefinedProperty method)) fun c => .ok (.method c i) := by
  simp only [Store.findSuper, h.getAt_super, h.getAt_this, bind, Except.bind]
  cases s.findMethod? p method <;> rfl

/-- The walker evaluates `super.method`. -/
theorem expr_super {w : Walker} (h : r.UsesSuper T H w.world.store w.env k a i c q p) {ident : Ident}
    (hd : w.distance? ident = some (k + 1)) (n : Nat) (method : String) (span : Span) :
    Walk.expr o (n + 1) (.super ident method span) w
      = (w.world.store.findMethod? p method).elim
          (.error (.fault { cause := .undefinedProperty method, span := some span }) w)
          fun c => .ok (.callable (.closure (w.world.store.bind c i).1))
            (w.setStore (w.world.store.bind c i).2) := by
  show Walk.located span (Walk.superMethod ident method) w = _
  unfold Walk.located
  rw [Walk.superMethod_apply hd, h.findSuper]
  cases w.world.store.findMethod? p method <;> rfl

/-- So does the machine. -/
theorem execute_super {m : Machine} (h : r.UsesSuper T H m.world.store m.env k a i c q p)
    (frame : Frame) (frames : List Frame) (method : String) (span : Option Span) :
    Exec.execute o ⟨.getSuper method (k + 1), span⟩ (m.ready o frame frames)
      = (m.world.store.findMethod? p method).elim
          (.error { cause := .undefinedProperty method } (m.ready o frame frames))
          fun c => .ok () ({ m.ready o frame frames with
            stack := .callable (.closure (m.world.store.bind c i).1) :: m.stack }.setStore
              (m.world.store.bind c i).2) := by
  obtain ⟨w, hw, hs⟩ := Machine.ready_eq o frame frames m
  rw [← hs] at h
  rw [hw, ← hs, Exec.execute_getSuper, h.findSuper]
  cases w.store.findMethod? p method <;> rfl

end Reference.UsesSuper

/-! ## Programs -/

/-- However a visit ends, the law holds. -/
theorem Visit.Placed.final {S : Setting} (ho : o.TameHost) {v : Visit} (hp : v.Placed S)
    (hm : v.Making S o) : (v.final o).world.store.Obeys S.law :=
  (Visit.sound ho v.fuel v.task v.state hp hm).kept.store

/-- In whatever state a fresh executor comes to while it runs a program, the methods of a class close
    over the environment of the class statement that has added them, with `super` as the superclass in
    between if there is one. An expression `super.m` looks up `m` in the superclass of the class that
    has the method around the expression, and binds what it finds to the instance of that method. -/
theorem super_static (o : Options) (ho : o.TameHost) (ns : List HostNative)
    {recovery : Recovery} {unit : Nat} {file source : String} {items : List Item} {d : Distances}
    (parsed : parseText recovery unit file source = .ok items) (resolved : resolve items = .ok d) :
    (∀ fuel v, Visit.Leads o ⟨fuel, .program items, .beginning ns d⟩ v →
      (∀ s, s = v.state.world.store ∨ s = (v.final o).world.store →
        (Visit.history o ⟨fuel, .program items, .beginning ns d⟩).MethodsClose s)
      ∧ ∀ n ident method span w, v = ⟨n + 1, .expr (.super ident method span), w⟩ →
        ∃ (r : Reference) (k : Nat) (a : EnvRef) (i : InstanceRef) (c : Closure) (q p : ClassRef),
          r.ident = ident ∧ r.span = span ∧ d.get? ident.id = some (k + 1)
          ∧ r.UsesSuper (itemsReferences [] items)
              (Visit.history o ⟨fuel, .program items, .beginning ns d⟩) w.world.store w.env k a i c q p
          ∧ Walk.expr o (n + 1) (.super ident method span) w
            = (w.world.store.findMethod? p method).elim
                (.error (.fault { cause := .undefinedProperty method, span := some span }) w)
                fun c => .ok (.callable (.closure (w.world.store.bind c i).1))
                  (w.setStore (w.world.store.bind c i).2))
      ∧ ∀ m, (Machine.beginning ns items).Execution o m →
        ((Machine.beginning ns items).history o).MethodsClose m.world.store
        ∧ ∀ frame frames method n place, m.frames = frame :: frames →
          frame.chunk.instr? frame.ip = some ⟨.getSuper method n, place⟩ →
          ∃ (r : Reference) (k : Nat) (a : EnvRef) (i : InstanceRef) (c : Closure) (q p : ClassRef),
            place = some r.span ∧ n = k + 1 ∧ d.get? r.ident.id = some n
            ∧ r.UsesSuper (itemsReferences [] items) ((Machine.beginning ns items).history o)
                m.world.store m.env k a i c q p
            ∧ Exec.execute o ⟨.getSuper method n, place⟩ (m.ready o frame frames)
              = (m.world.store.findMethod? p method).elim
                  (.error { cause := .undefinedProperty method } (m.ready o frame frames))
                  fun c => .ok () ({ m.ready o frame frames with
                    stack := .callable (.closure (m.world.store.bind c i).1) :: m.stack }.setStore
                      (m.world.store.bind c i).2) := by
  obtain ⟨hids, hexact⟩ := parseText_exact parsed resolved
  have hsame : ∀ id, (({} : Distances).union d).get? id = d.get? id := by simp [union_resolved resolved]
  constructor
  · intro fuel v hl
    have hm₀ : Visit.Making (.exact (declarationsIn items) (itemsReferences [] items)
      (({} : Distances).union d) _) o ⟨fuel, .program items, .beginning ns d⟩ := Visit.making_history _
    have hp := (Visit.Placed.program_exact fuel hexact).leads ho hm₀ hl
    constructor
    · rintro s (rfl | rfl)
      · exact hp.store.methodsClose
      · exact (hp.final ho fun v' hl' => hm₀ v' (hl.trans hl')).methodsClose
    · rintro n ident method span w rfl
      obtain ⟨pending, Γ, ⟨hdepth, hsupers⟩, hc⟩ := hp.task
      obtain ⟨k, a, i, c, q, p, hk, hu⟩ := Chain.usesSuper hsupers hc
      exact ⟨_, k, a, i, c, q, p, rfl, rfl, by rw [← hsame, ← hdepth, hk], hu, hu.expr_super hk n method span⟩
  · intro m hx
    have hstart : (Machine.beginning ns items).Good
        (Setting.exact _ _ _ ((Machine.beginning ns items).history o)).footing o :=
      .start_exact resolved hids hexact
    have hgood := hstart.execution ho (.refl _) hx
    refine ⟨hgood.holds.store.methodsClose, fun frame frames method n place hframes hcode => ?_⟩
    obtain ⟨Γ, hc, huse⟩ := hgood.uses (.getSuper hframes hcode)
    rcases huse with ⟨pending, ident, span, rfl, -, hdepth, hsupers⟩ | ⟨hread, -⟩
    · obtain ⟨k, a, i, c, q, p, hk, hu⟩ := Chain.usesSuper hsupers hc
      cases hk
      exact ⟨_, k, a, i, c, q, p, rfl, rfl, by rw [← hsame, ← hdepth], hu,
        hu.execute_super frame frames method span⟩
    · cases hread

/-- The name and the distance in an instruction that takes a method of the superclass. -/
def Op.super? : Op → Option (String × Nat)
  | .getSuper method n => some (method, n)
  | _ => none

theorem Op.super?_eq_some {op : Op} {method : String} {n : Nat} (h : op.super? = some (method, n)) :
    op = .getSuper method n := by
  unfold Op.super? at h
  split at h
  · cases h
    rfl
  · cases h

/-- A function in a method of `K` uses `super` for an instance of a subclass, after the superclass `P` was
    opened again and both names were given another value. -/
theorem super_static_nested : ∃ (items : List Item) (d : Distances) (m : Machine) (frame : Frame)
    (frames : List Frame) (place : Option Span) (a : EnvRef) (i : InstanceRef) (c : Closure) (m' : Machine),
    parseText .resume 0 "" ("class P { m() { return 1; } } "
        ++ "class K < P { m() { fun f() { return super.m(); } return f(); } } class L < K {} "
        ++ "class P { m() { return 2; } } var l = L(); P = nil; K = nil; l.m();") = .ok items
      ∧ resolve items = .ok d ∧ (Machine.beginning [] items).Execution {} m
      ∧ m.frames = frame :: frames ∧ frame.chunk.instr? frame.ip = some ⟨.getSuper "m" 3, place⟩
      ∧ (m.world.store.local? m.globals "P").map m.world.store.typeName = some "undefined"
      ∧ m.world.store.local? a "this" = some (.object i)
      ∧ m.world.store.typeName (.object i) = "class L"
      ∧ m.world.store.findMethod? 0 "m" = some c
      ∧ Exec.execute {} ⟨.getSuper "m" 3, place⟩ (m.ready {} frame frames) = .ok () m'
      ∧ m'.stack = .callable (.closure (m.world.store.bind c i).1) :: m.stack := by
  have hcheck : ((parseText .resume 0 "" ("class P { m() { return 1; } } "
        ++ "class K < P { m() { fun f() { return super.m(); } return f(); } } class L < K {} "
        ++ "class P { m() { return 2; } } var l = L(); P = nil; K = nil; l.m();")).toOption.any fun items =>
      (resolve items).toOption.any fun _ =>
        (fun m : Machine => (m.frames.head?.any fun frame =>
            (frame.chunk.instr? frame.ip).any fun i => i.op.super? == some ("m", 3))
          && (m.world.store.local? m.globals "P").map m.world.store.typeName == some "undefined"
          && (m.world.store.getAt m.env "this" 2).toOption.map m.world.store.typeName == some "class L"
          && (m.world.store.superclassOf (m.world.store.getAt m.env "super" 3).toOption).toOption
              == some (some 0)
          && (m.world.store.findMethod? 0 "m").isSome)
        ((Machine.beginning [] items).after {} 25)) = true := by
    decide +kernel
  obtain ⟨items, hparsed, hcheck⟩ := Outcome.any_toOption.1 hcheck
  obtain ⟨d, hresolved, hcheck⟩ := Outcome.any_toOption.1 hcheck
  have hx : (Machine.beginning [] items).Execution {} ((Machine.beginning [] items).after {} 25) :=
    .after .start 25
  generalize (Machine.beginning [] items).after {} 25 = m at hcheck hx
  simp only [Bool.and_eq_true, beq_iff_eq] at hcheck
  obtain ⟨⟨⟨⟨hnext, hP⟩, hthis⟩, hsuper⟩, hfound⟩ := hcheck
  obtain ⟨frame, hframe, hnext⟩ := (Option.any_eq_true _ _).1 hnext
  obtain ⟨⟨op, span⟩, hcode, hop⟩ := (Option.any_eq_true _ _).1 hnext
  obtain ⟨frames, hframes⟩ := List.head?_eq_some_iff.1 hframe
  obtain rfl := Op.super?_eq_some (beq_iff_eq.1 hop)
  obtain ⟨c, hc⟩ := Option.isSome_iff_exists.1 hfound
  have hsuper := Store.superclassOf_eq_ok (Outcome.toOption_eq_some.1 hsuper)
  obtain ⟨r, k, a, i, c', q, p, -, hk, -, hu, hexecuted⟩ :=
    ((super_static {} tameHost_default [] hparsed hresolved).2 m hx).2 frame frames "m" 3 span
      hframes hcode
  cases hk
  cases hu.getAt_super.symm.trans (Outcome.toOption_eq_some.1 hsuper)
  rw [hu.getAt_this] at hthis
  rw [hc] at hexecuted
  exact ⟨items, d, m, frame, frames, span, a, i, c, _, hparsed, hresolved, hx, hframes, hcode, hP, hu.this,
    Option.some.inj hthis, hc, hexecuted, rfl⟩

end Eleu

import Eleu.Proofs.Scope.Distances
import Eleu.Proofs.Walker.Names

/-! # Local names are declared once

    Scope analysis refuses a scope that declares a name twice. That is enough: an environment other
    than the global one belongs to one execution of one block or body, in which each declaration is
    executed at most once. So whatever a program that is run once declares in a local environment is
    new there (`local_declarations_new`); only a global declaration can be refused for its name, open
    a class again, or replace what the name stood for. -/

namespace Eleu

/-- The environment itself does not have the name: a variable may be declared, and a class statement
    makes a new class, whatever its superclass. -/
structure Store.Vacant (s : Store) (e : EnvRef) (name : String) : Prop where
  unbound : s.hasLocal e name = false
  var : ∀ v, declare e name v s = .ok () (s.define e name v)
  «class» : ∀ parent, openClass e name parent s = .ok (s.newClass name parent).1 (s.newClass name parent).2

variable {o : Options} {D : List FunctionDecl} {T : List Reference} {d : Distances} {H : History}
  {name : String}

/-- A name that may be declared in a scope is vacant if there are no names but those of the scope. -/
theorem Store.Within.vacant {s : Store} {e : EnvRef} {Γ : Context} (h : s.Within e Γ) (hΓ : Γ ≠ [])
    (hd : (Setting.exact D T d H True).rules.declares Γ name) : s.Vacant e name := by
  have hunbound : s.hasLocal e name = false := by
    cases Γ with
    | nil => exact absurd rfl hΓ
    | cons scope outer => exact Bool.eq_false_iff.2 fun hx => hd.2 trivial scope rfl (h scope rfl name hx)
  refine ⟨hunbound, fun v => ?_, fun parent => ?_⟩
  · rw [declare_apply, hunbound]
    rfl
  · unfold openClass
    rw [Outcome.bind_apply, Outcome.get_apply]
    dsimp only
    rw [local?_eq_none hunbound]
    rfl

/-! ## The walker -/

/-- A declaration is not refused for a name that is vacant. -/
theorem Visit.Declares.unrefused {v : Visit} {w : Walker} (hd : v.Declares o name w)
    (hv : w.world.store.Vacant w.env name) {f : Fault} {w' : Walker}
    (hf : v.outcome o = .error (.fault f) w') : f.cause.clashes = false := by
  cases hd with
  | @var n init w₀ x _ _ span evaluated =>
    change Walk.statement o (n + 1) (.var name init span) w₀ = _ at hf
    rw [Walk.statement_var, Outcome.bind_apply, evaluated] at hf
    change (Walk.onStore (Store.declare w.env name x) >>= _) w = _ at hf
    rw [Outcome.bind_apply, Walk.onStore_apply, hv.var] at hf
    cases hf
  | function => cases hf
  | @«class» n _ parent methods span w =>
    have hends := Walk.statement_class_ends o n name parent methods span w
    change Walk.statement o (n + 1) (.class name parent methods span) w = _ at hf
    rw [hf] at hends
    exact hends.2 f hv.unbound rfl

/-! ## The machine -/

/-- The name that an instruction declares. -/
def Op.declared? : Op → Option String
  | .declareVar name => some name
  | .function decl => some decl.name
  | .class name _ => some name
  | _ => none

/-- A declaration stands where the rules let it stand. -/
theorem Machine.Good.declares {S : Setting} {m : Machine} (h : m.Good S.footing o) (hS : S.Whole)
    {frame : Frame} {frames : List Frame} {i : Instr} (hframes : m.frames = frame :: frames)
    (hcode : frame.chunk.instr? frame.ip = some i) (hd : i.op.declared? = some name)
    (hne : m.env ≠ m.globals) :
    ∃ Γ, S.rules.declares Γ name ∧ Γ ≠ [] ∧ m.world.store.Within m.env Γ := by
  rcases h.rows with ⟨hnil, -⟩ | ⟨r, rs, hruns⟩
  · cases hnil.symm.trans hframes
  · cases hframes.symm.trans hruns.frames
    rw [hruns.env] at hne ⊢
    obtain ⟨hΓ, hwithin⟩ := Owned.within hruns.owned hS hne
    obtain ⟨p, hp⟩ := Chain.parent hruns.top.chain hΓ
    refine ⟨r.shape.scopes, ?_, hΓ, hwithin p hp⟩
    have hfits := hruns.top.balanced.fits_at hruns.top.shape hcode
    obtain ⟨op, place⟩ := i
    obtain ⟨span, rfl⟩ := hfits.placed
    cases op with
    | declareVar x | function decl | «class» x methods =>
      cases hd
      exact hfits.1
    | _ => cases hd

theorem Exec.execute_unrefused {i : Instr} {m : Machine} (hd : i.op.declared? = some name)
    (hv : m.world.store.Vacant m.env name) :
    Ends (execute o i m) (fun _ _ => True) fun f _ => f.cause.clashes = false := by
  obtain ⟨op, span⟩ := i
  cases op with
  | declareVar x =>
    cases hd
    cases hst : m.stack with
    | nil =>
      simp only [execute, pop, Outcome.bind_apply, Outcome.get_apply, hst]
      rfl
    | cons v st =>
      rw [execute_declareVar hst, hv.unbound]
      trivial
  | function decl => trivial
  | «class» x methods =>
    cases hd
    exact (execute_class_ends o name methods span m).mono (fun _ _ _ => trivial) fun f m' h => h.2 hv.unbound
  | _ => cases hd

/-- Whenever a program that is run on a fresh executor declares a variable, a function or a class in an
    environment that is not the global one, the name is vacant there, and so the declaration is not
    refused for it. -/
theorem local_declarations_new (o : Options) (ho : o.TameHost) (ns : List HostNative)
    {recovery : Recovery} {unit : Nat} {file source : String} {items : List Item} {d : Distances}
    (parsed : parseText recovery unit file source = .ok items) (resolved : resolve items = .ok d) :
    (∀ fuel v, Visit.Leads o ⟨fuel, .program items, .beginning ns d⟩ v →
      ∀ name w, v.Declares o name w → w.env ≠ w.globals →
        w.world.store.Vacant w.env name
          ∧ ∀ f w', v.outcome o = .error (.fault f) w' → f.cause.clashes = false)
      ∧ ∀ m, (Machine.beginning ns items).Execution o m →
        ∀ frame frames i name, m.frames = frame :: frames → frame.chunk.instr? frame.ip = some i →
          i.op.declared? = some name → m.env ≠ m.globals →
          m.world.store.Vacant m.env name
            ∧ Ends (Exec.execute o i (m.ready o frame frames)) (fun _ _ => True)
                (fun f _ => f.cause.clashes = false) := by
  obtain ⟨hids, hexact⟩ := parseText_exact parsed resolved True
  constructor
  · intro fuel v hl name w hd hne
    have hclear := Visit.Clear.of_program (o := o) (.program_exact fuel hexact) (Visit.making_history _)
      (show (Walker.beginning ns d).env = (Walker.beginning ns d).globals by rw [Walker.beginning_eq])
    obtain ⟨Γ, hdeclares, hwithin⟩ := (hclear.leads ho hl).declares ho hd
    obtain ⟨hΓ, -, hwithin⟩ := hwithin hne
    have hvacant := hwithin.vacant hΓ hdeclares
    exact ⟨hvacant, fun f w' hf => hd.unrefused hvacant hf⟩
  · intro m hx frame frames i name hframes hcode hd hne
    have hgood := (Machine.Good.start_exact resolved hids hexact).execution ho (.refl _) hx
    obtain ⟨Γ, hdeclares, hΓ, hwithin⟩ := hgood.declares (fun _ _ => List.cons_ne_nil _ _) hframes hcode hd hne
    have hvacant := hwithin.vacant hΓ hdeclares
    refine ⟨hvacant, ?_⟩
    -- making ready for the instruction leaves the store and the environment as they are
    obtain ⟨w, hw, hs⟩ := Machine.ready_eq o frame frames m
    rw [hw]
    refine Exec.execute_unrefused hd ?_
    show w.store.Vacant m.env name
    rw [hs]
    exact hvacant

/-- A loop in a function declares a class in its second round, whose name the function has declared
    too. -/
theorem local_declarations_new_again : ∃ (items : List Item) (d : Distances) (m : Machine),
    parseText .resume 0 "" "fun f() { class A {} repeat (2) { class A { m() {} } } } f();" = .ok items
      ∧ resolve items = .ok d ∧ (Machine.beginning [] items).Execution {} m
      ∧ (∃ p, (m.world.store.env m.env).parent = some p ∧ m.world.store.hasLocal p "A" = true)
      ∧ m.env ≠ m.globals ∧ m.world.store.Vacant m.env "A" := by
  have hcheck : ((parseText .resume 0 ""
        "fun f() { class A {} repeat (2) { class A { m() {} } } } f();").toOption.any fun items =>
      (resolve items).toOption.any fun _ =>
        (fun m : Machine => (m.world.store.env m.env).parent.any fun p => m.world.store.hasLocal p "A"
          && m.env != m.globals && m.frames.head?.any fun frame =>
            (frame.chunk.instr? frame.ip).any fun i => i.op.declared? == some "A")
        ((Machine.beginning [] items).after {} 17)) = true := by
    decide +kernel
  obtain ⟨items, hparsed, hcheck⟩ := Outcome.any_toOption.1 hcheck
  obtain ⟨d, hresolved, hcheck⟩ := Outcome.any_toOption.1 hcheck
  have hx : (Machine.beginning [] items).Execution {} ((Machine.beginning [] items).after {} 17) :=
    .after .start 17
  generalize (Machine.beginning [] items).after {} 17 = m at hcheck hx
  obtain ⟨p, hp, hcheck⟩ := (Option.any_eq_true _ _).1 hcheck
  simp only [Bool.and_eq_true, bne_iff_ne] at hcheck
  obtain ⟨⟨houter, hne⟩, hnext⟩ := hcheck
  obtain ⟨frame, hframe, hnext⟩ := (Option.any_eq_true _ _).1 hnext
  obtain ⟨i, hcode, hdeclared⟩ := (Option.any_eq_true _ _).1 hnext
  obtain ⟨frames, hframes⟩ := List.head?_eq_some_iff.1 hframe
  obtain ⟨hvacant, -⟩ := (local_declarations_new {} tameHost_default [] hparsed hresolved).2 m hx
    frame frames i "A" hframes hcode (beq_iff_eq.1 hdeclared) hne
  exact ⟨items, d, m, hparsed, hresolved, hx, ⟨p, hp, houter⟩, hne, hvacant⟩

end Eleu

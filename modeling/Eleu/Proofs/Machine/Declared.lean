import Eleu.Proofs.Machine.Bond
import Eleu.Proofs.Machine.Execute

/-! # Machines with the same stores

    Two machines that are the same but for their code and for the flag that tells whether a program has
    failed keep in step as long as all functions come from declarations of which it is known that calls
    find related chunks (`Bond.declared_lawful`). Which declarations these are and what the code has to
    do with each other is left open. So no instruction changes the flag
    (`Exec.execute_failed`). -/

namespace Eleu

/-- All functions in the operation come from `D`. -/
def Op.Declared (D : FunctionDecl → Prop) : Op → Prop
  | .constant v => v.IfFunction fun c => D c.decl
  | .function decl => D decl
  | .class _ methods => ∀ d ∈ methods, D d
  | _ => True

/-- All functions in the chunk come from `D`. -/
def Chunk.Declared (D : FunctionDecl → Prop) (c : Chunk) : Prop :=
  ∀ ⦃n : Nat⦄ ⦃i : Instr⦄, c.instr? n = some i → i.op.Declared D

/-- The functions in a store come from `D`. -/
abbrev Store.Declared (D : FunctionDecl → Prop) (s : Store) : Prop :=
  s.Obeys (.declared (fun _ => False) D)

/-- The value is no function that does not come from `D`. -/
abbrev Value.Declared (D : FunctionDecl → Prop) (v : Value) : Prop := v.IfFunction fun c => D c.decl

/-- The same stores, values and chunks, in which all functions come from `D`. -/
def Bond.declared (D : FunctionDecl → Prop)
    (code : Distances → Table Nat Chunk → Distances → Table Nat Chunk → Prop) (flag : Bool → Prop) : Bond where
  store s s' := s' = s ∧ s.Declared D
  later _ _ := True
  value _ v v' := v' = v ∧ v.Declared D
  env _ _ := True
  decl d d' := d' = d ∧ D d
  chunk c c' := c' = c ∧ c.Declared D
  code := code
  place _ := True
  fault _ := True
  flag := flag
  later_refl _ := trivial
  later_trans _ _ := trivial
  value_later _ h := h
  env_later _ h := h

/-- Natives bring in no function that does not come from `D`. -/
def Options.Declared (o : Options) (D : FunctionDecl → Prop) : Prop :=
  ∀ f args w, w.store.Declared D → (∀ v ∈ args, v.Declared D) →
    Ends (NativeM.call o f args w) (fun v t => t.store.Declared D ∧ v.Declared D) fun _ t => t.store.Declared D

variable {D : FunctionDecl → Prop} {o : Options}
  {code : Distances → Table Nat Chunk → Distances → Table Nat Chunk → Prop} {flag : Bool → Prop}

theorem Op.Declared.ops {op : Op} (h : op.Declared D) : (Bond.declared D code flag).Ops op op := by
  cases op with
  | constant v => exact .constant fun _ => ⟨rfl, h⟩
  | function decl => exact .function ⟨rfl, h⟩
  | «class» name ms => exact .class name (List.forall₂_same.2 fun d hd => ⟨rfl, h d hd⟩)
  | _ => exact .same trivial

/-- A member that is found on both sides. -/
theorem Bond.declared_members {s : Store} {x : Except Cause Member}
    (h : ∀ f, x = .ok f → f.Obeys (.declared (fun _ => False) D) s) :
    YieldAlike ((Bond.declared D code flag).Members s) x x := by
  cases x with
  | error c => exact .error c
  | ok f =>
    have hf := h f rfl
    cases f with
    | value v => exact .ok (.value ⟨rfl, hf⟩)
    | method c this =>
      have hc : (Bond.declared D code flag).Closures s c c := ⟨rfl, hf.elim fun _ hc => hc⟩
      exact .ok (.method hc this)

theorem Bond.declared_lawful (hnative : o.Declared D)
    (hchunk : ∀ {m m' d}, D d → (Bond.declared D code flag).Machines m m' →
      (Bond.declared D code flag).Ends m.world.store (fun _ c c' => c' = c ∧ c.Declared D)
        (Exec.chunkFor d m) (Exec.chunkFor d m')) : (Bond.declared D code flag).Lawful o where
  toReads := .of_eq (·.1) (·.1) (·.1)
  shape h := h.1 ▸ .refl _
  inert h := ⟨rfl, h.plain.ifFunction _⟩
  decl h := h.1 ▸ ⟨rfl, rfl⟩
  function h _ := ⟨by rw [h.1], h.2⟩
  closure h := by
    obtain ⟨heq, hd⟩ := h
    cases heq
    exact ⟨⟨rfl, hd⟩, rfl, trivial⟩
  moved h _ := by
    obtain ⟨heq, hd⟩ := h
    cases heq
    exact ⟨rfl, hd⟩
  define e name h hv := by
    obtain ⟨rfl, hs⟩ := h
    obtain ⟨rfl, hv⟩ := hv
    exact ⟨trivial, rfl, hs.define (.define _ e (.inl id) _) hv⟩
  newEnv h _ := ⟨trivial, ⟨by rw [h.1], h.2.newEnv _⟩, trivial⟩
  outer _ _ _ := trivial
  newInstance r h := ⟨trivial, by rw [h.1], h.2.newInstance r⟩
  setField r name h hv := ⟨trivial, by rw [h.1, hv.1], h.2.setField r name hv.2⟩
  declareClass {s s' e x x' ms ms'} name h _ hx hms := by
    obtain ⟨rfl, hs⟩ := h
    obtain ⟨rfl, hms⟩ := forall₂_diagonal.1 hms
    have hsame : x' = x ∧ ∀ v ∈ x, v.Declared D := by
      cases hx with
      | none => exact ⟨rfl, by rintro _ ⟨⟩⟩
      | some hv => exact ⟨by rw [hv.1], by rintro _ ⟨⟩; exact hv.2⟩
    obtain ⟨rfl, hx⟩ := hsame
    cases hd : Store.declareClass e name x' ms' s' with
    | ok u t => exact .ok ⟨trivial, rfl, hs.declareClass id hx hd fun _ _ _ _ _ _ d hm => hms d hm⟩ trivial
    | error c t =>
      cases Store.declareClass_atomic _ _ _ _ hd
      exact .error ⟨trivial, rfl, hs⟩ trivial
  getAt e name n h := by
    obtain ⟨rfl, hs⟩ := h
    exact .diagonal fun _ hv => (hs.getAt e name n).of_ok hv
  getFrom e name h := by
    obtain ⟨rfl, hs⟩ := h
    exact .diagonal fun _ hv => (hs.get e name).of_ok hv
  findMethod {s s'} r name h := by
    obtain ⟨rfl, hs⟩ := h
    cases hc : s'.findMethod? r name with
    | none => exact .none
    | some c => exact .some ⟨rfl, (hs.findMethod? hc).elim fun _ hc => hc⟩
  findMember r name h := by
    obtain ⟨rfl, hs⟩ := h
    exact declared_members fun _ hf => hs.findMember hf
  findSuper e n name h := by
    obtain ⟨rfl, hs⟩ := h
    exact declared_members fun _ hf => hs.findSuper hf
  native {w w' args args'} f hw hargs := by
    obtain ⟨s', ⟨rfl, hs⟩, rfl⟩ := hw
    obtain ⟨rfl, hargs⟩ := forall₂_diagonal.1 hargs
    have hcall := hnative f args' w hs hargs
    cases hr : NativeM.call o f args' w with
    | ok v t =>
      rw [hr] at hcall
      exact .ok ⟨trivial, _, ⟨rfl, hcall.1⟩, rfl⟩ ⟨rfl, hcall.2⟩
    | error g t =>
      rw [hr] at hcall
      exact .error ⟨trivial, _, ⟨rfl, hcall⟩, rfl⟩ trivial
  instr {c c'} n h := by
    obtain ⟨rfl, hc⟩ := h
    cases hi : c'.instr? n with
    | none => exact .none
    | some i => exact .some ⟨(hc hi).ops, rfl, trivial⟩
  chunkFor h hm := by
    obtain ⟨rfl, hd⟩ := h
    exact hchunk hd hm
  unplaced _ := trivial
  placed _ := trivial
  located _ _ := trivial

theorem Options.TameHost.declared (ho : o.TameHost) (D : FunctionDecl → Prop) : o.Declared D := by
  intro f args w hs hargs
  have hcall := NativeM.call_tame (L := .declared Reserved D) ho ⟨fun _ c => D c.decl, fun _ _ => rfl⟩ f
    ⟨hs.locals, hs.elements, hs.fields, hs.methods⟩ hargs
  refine hcall.mono (fun v t h => ⟨?_, h.1⟩) fun _ t h => ?_
  · exact ⟨h.2.1.locals, h.2.1.elements, h.2.1.fields, h.2.1.methods⟩
  · exact ⟨h.2.1.locals, h.2.1.elements, h.2.1.fields, h.2.1.methods⟩

/-! ## The flag -/

theorem Value.declared_any (v : Value) : v.Declared fun _ => True := by
  cases v with
  | callable c => cases c <;> trivial
  | _ => trivial

theorem Store.declared_any (s : Store) : s.Declared fun _ => True :=
  ⟨fun _ => Value.declared_any _, fun _ => Value.declared_any _, fun _ => Value.declared_any _,
    fun _ => trivial⟩

theorem Op.declared_any (op : Op) : op.Declared fun _ => True := by
  cases op with
  | constant v => exact v.declared_any
  | «class» name ms => exact fun _ _ => trivial
  | _ => trivial

theorem Chunk.declared_any (c : Chunk) : c.Declared fun _ => True := fun _ i _ => i.op.declared_any

/-- Machines that are the same, with a flag that `flag` admits. -/
abbrev Bond.itself (flag : Bool → Prop) : Bond :=
  .declared (fun _ => True) (fun d chunks d' chunks' => d' = d ∧ chunks' = chunks) flag

/-- No instruction changes the flag. -/
theorem Exec.execute_failed (i : Instr) (m : Machine) :
    Ends (execute o i m) (fun _ m' => m'.failed = m.failed) fun _ m' => m'.failed = m.failed := by
  have hlawful : (Bond.itself (· = m.failed)).Lawful o := by
    refine Bond.declared_lawful (fun f args w _ _ => ?_) fun {n n' d} _ hn => ?_
    · cases NativeM.call o f args w with
      | ok v t => exact ⟨t.store.declared_any, v.declared_any⟩
      | error g t => exact t.store.declared_any
    · obtain ⟨hd, hc⟩ := hn.code
      unfold chunkFor
      rw [Outcome.bind_apply, Outcome.bind_apply, Outcome.get_apply, Outcome.get_apply]
      dsimp only
      rw [hd, hc]
      cases n.chunks.get? d.id with
      | some c => exact .ok ⟨trivial, hn⟩ ⟨rfl, c.declared_any⟩
      | none =>
        cases functionChunk n.distances d with
        | error f => exact .error ⟨trivial, hn⟩ trivial
        | ok c => exact .ok ⟨trivial, { hn with code := ⟨rfl, rfl⟩ }⟩ ⟨rfl, c.declared_any⟩
  have hm : (Bond.itself (· = m.failed)).Machines m m := {
    world := ⟨_, ⟨rfl, m.world.store.declared_any⟩, rfl⟩
    globals := ⟨rfl, trivial⟩
    env := ⟨rfl, trivial⟩
    envs := ⟨rfl, fun _ _ => trivial⟩
    stack := List.forall₂_same.2 fun v _ => ⟨rfl, v.declared_any⟩
    frames := List.forall₂_same.2 fun f _ => .refl ⟨rfl, f.chunk.declared_any⟩
    handlers := ⟨rfl, fun _ _ => ⟨trivial, trivial⟩⟩
    code := ⟨rfl, rfl⟩
    count := rfl
    failed := ⟨rfl, rfl⟩ }
  have hi : (Bond.itself (· = m.failed)).Instrs i i :=
    ⟨(i.op.declared_any).ops, rfl, trivial⟩
  have hdone := hlawful.execute hi (s := m.world.store) m m trivial hm
  generalize execute o i m = x at hdone ⊢
  cases hdone with
  | ok hn _ => exact hn.2.failed.2
  | error hn _ => exact hn.2.failed.2

end Eleu

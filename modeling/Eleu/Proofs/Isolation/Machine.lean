import Eleu.Proofs.Isolation.Trees
import Eleu.Proofs.Machine.Bond
import Eleu.Proofs.Machine.Execute

/-! # Machines of two runs

    Two machines that execute alike code in alike states go through alike states, instruction by
    instruction. Besides their stores, the states differ in the declarations in their code, in
    the tables of distances and in the chunks noted so far. A call finds its chunk by the id of
    the declaration, so it has to be known of each machine that declarations of the same id have
    the same chunk (`Pairing.Compiles`); whether a chunk was noted before then makes no
    difference. With this the pairing is a lawful bond (`Pairing.Compiles.lawful`). -/

namespace Eleu

/-- Paired declarations are alike, and on either side those with the same id have the same chunk. -/
structure Pairing.Compiles (P : Pairing) (d d' : Distances) : Prop extends P.Fits d d' where
  own : ∀ {a a' b b'}, P a a' → P b b' → a.id = b.id → functionChunk d a = functionChunk d b
  own' : ∀ {a a' b b'}, P a a' → P b b' → a'.id = b'.id → functionChunk d' a' = functionChunk d' b'

/-- Both machines know their distances and have noted chunks of their own declarations only. -/
structure Pairing.Code (P : Pairing) (d d' e : Distances) (chunks : Table Nat Chunk) (e' : Distances)
    (chunks' : Table Nat Chunk) : Prop where
  distances : e = d
  distances' : e' = d'
  chunks : ChunksOf (fun a => ∃ a', P a a') d chunks
  chunks' : ChunksOf (fun a' => ∃ a, P a a') d' chunks'

/-- Alike stores, values and chunks. What a machine refers to need not be there, and places do not
    matter. -/
def Pairing.bond (P : Pairing) (d d' : Distances) : Bond where
  store := Store.Like P
  later _ _ := True
  value _ := Value.Like P
  env _ _ := True
  decl := P
  chunk := Chunk.Like P
  code := P.Code d d'
  place _ := True
  fault _ := True
  flag _ := True
  later_refl _ := trivial
  later_trans _ _ := trivial
  value_later _ h := h
  env_later _ h := h

/-- Machines whose stores, stacks and frames are alike, that have noted chunks of their own
    declarations only, and that are the same otherwise. -/
abbrev Machine.Alike (P : Pairing) (d d' : Distances) (m m' : Machine) : Prop := (P.bond d d').Machines m m'

variable {P : Pairing} {d d' : Distances} {o : Options}

theorem Op.Like.text {op op' : Op} (h : op.Like P op') (hP : P.Faithful) : op'.text = op.text := by
  cases h with
  | same _ => rfl
  | function hd => exact congrArg ("FUNCTION " ++ ·) (hP.name hd)
  | «class» name hms =>
    exact congrArg (fun n => "CLASS " ++ name ++ " (" ++ toString n ++ " methods)")
      hms.length_eq.symm

theorem Chunk.Like.decode {c c' : Chunk} (h : c.Like P c') (hP : P.Faithful) (offset : Nat) :
    c'.decode offset = c.decode offset := by
  unfold Chunk.decode
  obtain ⟨hx, hy⟩ | ⟨i, i', hx, hy, hi⟩ := rel_cases (h.ops.get? offset)
  · rw [hx, hy]
  · simp only [hx, hy, hi.text hP]

theorem Op.Like.ops {op op' : Op} (h : op.Like P op') : (P.bond d d').Ops op op' := by
  cases h with
  | function hd => exact .function hd
  | «class» name hms => exact .class name hms
  | @same op h =>
    cases op with
    | function decl => exact nomatch h
    | «class» name ms => exact nomatch h
    | constant v =>
      refine .constant fun _ => .plain ?_
      cases v with
      | callable c =>
        cases c with
        | closure _ => exact nomatch h
        | _ => trivial
      | _ => trivial
    | _ => exact .same trivial

theorem Member.Like.members {f f' : Member} {s : Store} (h : f.Like P f') :
    (P.bond d d').Members s f f' := by
  cases h with
  | value hv => exact .value hv
  | method hc this => exact .method (Value.Like.closure hc) this

theorem Value.Like.shape {v v' : Value} (h : v.Like P v') : v.Shape v' := by
  cases h with
  | plain hp => exact .plain hp
  | closure _ => exact .closure _ _

theorem Value.Like.closure_inv {c c' : Closure}
    (h : (Value.callable (.closure c)).Like P (.callable (.closure c'))) : c.Like P c' := by
  cases h with
  | plain hp => exact hp.elim
  | closure hc => exact hc

/-- A call finds or generates alike chunks. -/
theorem Pairing.Compiles.chunkFor (hP : P.Compiles d d') {a a' : FunctionDecl} (ha : P a a') {m m' : Machine}
    (hm : m.Alike P d d' m') :
    (P.bond d d').Ends m.world.store (fun _ => Chunk.Like P) (Exec.chunkFor a m) (Exec.chunkFor a' m') := by
  obtain ⟨rfl, rfl, hnoted, hnoted'⟩ := hm.code
  obtain ⟨chunks, hchunks, heq⟩ :=
    Exec.chunkFor_own hnoted (fun x y ⟨_, hx⟩ ⟨_, hy⟩ => hP.own hx hy) a ⟨a', ha⟩
  obtain ⟨chunks', hchunks', heq'⟩ :=
    Exec.chunkFor_own hnoted' (fun x y ⟨_, hx⟩ ⟨_, hy⟩ => hP.own' hx hy) a' ⟨a, ha⟩
  have hchunk := (hP.like ha).chunk
  rw [heq, heq']
  generalize functionChunk m.distances a = x at hchunk ⊢
  generalize functionChunk m'.distances a' = y at hchunk ⊢
  cases hchunk with
  | ok hc => exact .ok ⟨trivial, { hm with code := ⟨rfl, rfl, hchunks, hchunks'⟩ }⟩ hc
  | error f => exact .error ⟨trivial, { hm with code := ⟨rfl, rfl, hchunks, hchunks'⟩ }⟩ trivial

theorem Pairing.Compiles.lawful (ho : o.OpaqueHost) (hP : P.Compiles d d') : (P.bond d d').Lawful o where
  repr h hv := h.repr hP.faithful hv
  truth h hv := h.truth hP.faithful hv
  rounds h hv := h.rounds hP.faithful hv
  unary op h hv := h.unary hP.faithful op hv
  binary op h hl hr := h.binary hP.faithful op hl hr
  logical op h hl hr := h.logical hP.faithful op hl hr
  checkArity n h hc := h.checkArity hP.faithful hc n
  hasLocal e name h := h.hasLocal e name
  holder e name h := h.holder e name
  holderAt e name n h := h.holderAt e name n
  parent e h := (h.env e).parent
  envs h := h.envs.size
  instances h := h.instances.size
  size h := h.ops.size
  decode n h := h.decode hP.faithful n
  shape h := h.shape
  inert h := .plain h.plain
  decl h := ⟨hP.faithful.name h, hP.faithful.params h⟩
  function h _ := .closure ⟨h, rfl, rfl⟩
  closure h := ⟨h.closure_inv.decl, h.closure_inv.env, trivial⟩
  moved h _ := .closure ⟨h.closure_inv.decl, rfl, h.closure_inv.isInit⟩
  define e name h hv := ⟨trivial, h.define e name hv⟩
  newEnv h _ := ⟨trivial, h.newEnv _, trivial⟩
  outer _ _ _ := trivial
  newInstance r h := ⟨trivial, h.newInstance r⟩
  setField r name h hv := ⟨trivial, h.setField r name hv⟩
  declareClass name h _ hx hms := by
    refine (Store.declareClass_parallel hP.faithful _ name hx hms _ _ h).both ?_ ?_ fun _ => trivial
    · exact fun _ _ ht => ⟨trivial, ht⟩
    · exact fun _ _ _ _ => trivial
  getAt e name n h := h.getAt e name n
  getFrom e name h := h.get e name
  findMethod r name h := by
    obtain ⟨hx, hy⟩ | ⟨c, c', hx, hy, hc⟩ := rel_cases (h.findMethod? r name)
    · rw [hx, hy]
      exact .none
    · rw [hx, hy]
      exact .some (.closure hc)
  findMember r name h := (h.findMember r name).mono fun _ _ hf => hf.members
  findSuper e n name h := (h.findSuper e n name).mono fun _ _ hf => hf.members
  native f hw hargs := by
    refine (NativeM.call_parallel ho hP.faithful f hargs _ _ hw).both ?_ ?_ fun _ => trivial
    · exact fun _ _ ht => ⟨trivial, ht⟩
    · exact fun _ _ _ hv => hv
  instr n h := by
    obtain ⟨hx, hy⟩ | ⟨i, i', hx, hy, hi⟩ := rel_cases (h.instr? n)
    · rw [hx, hy]
      exact .none
    · rw [hx, hy]
      exact .some ⟨hi.op.ops, hi.span, trivial⟩
  chunkFor h hm := hP.chunkFor h hm
  unplaced _ := trivial
  placed _ := trivial
  located _ _ := trivial

end Eleu

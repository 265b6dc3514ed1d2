import Eleu.Proofs.Code.Emitted

/-! # Extents of generated code

    A static check of a chunk assigns an `Extent` to every offset: how many values the frame has on the
    stack and how many scopes it has open before the instruction there. `Op.effect` says what an
    instruction does to the extent and `Op.successors` where it leads to. A chunk is `Chunk.Consistent` if
    no instruction takes values or leaves scopes that are not there, and all its ways to an offset agree
    on the extent there.

    The extents of generated code are those of its shapes (`Chunk.Balanced.consistent`). -/

namespace Eleu

/-- How many values a frame has on the stack, and how many scopes it has open. -/
structure Extent where
  height : Nat
  depth : Nat
deriving DecidableEq

/-- What an instruction does to the values and the scopes of its frame. A value that it only looks at
    counts as taken and put back. -/
structure Effect where
  pops : Nat := 0
  pushes : Nat := 0
  closes : Nat := 0
  opens : Nat := 0

/-- The extent after an instruction. -/
def Extent.after (l : Extent) (e : Effect) : Extent :=
  ⟨l.height - e.pops + e.pushes, l.depth - e.closes + e.opens⟩

namespace Op

/-- The effect of an instruction. A class statement takes its flag and, if the flag is set, the
    superclass. A call counts up to the return from it. -/
def effect (flag : Bool) : Op → Effect
  | .constant _ | .lookup _ _ | .getSuper _ _ => { pushes := 1 }
  | .pop | .declareVar _ | .return | .assert _ | .failureEnd => { pops := 1 }
  | .class _ _ => { pops := flag.toNat + 1 }
  | .assign _ _ | .getField _ | .unary _ | .jumpIfFalse _ | .repeatTest _ => { pops := 1, pushes := 1 }
  | .setField _ | .binary _ | .logical _ => { pops := 2, pushes := 1 }
  | .call count => { pops := count + 1, pushes := 1 }
  | .enterScope => { opens := 1 }
  | .leaveScope count => { closes := count }
  | .function _ | .jump _ | .failureBegin _ _ => {}

/-- The offsets to which the instruction at `n` leads. One that awaits a fault also leads to where the
    program goes on after the fault, and one that always fails is taken to go on. -/
def successors (n : Nat) : Op → List Nat
  | .jump target => [target]
  | .jumpIfFalse target | .repeatTest target | .failureBegin _ target => [n + 1, target]
  | .return => []
  | _ => [n + 1]

/-- Whether an instruction is a class statement. -/
def isClass : Op → Bool
  | .class _ _ => true
  | _ => false

end Op

namespace Chunk

/-- Whether the instruction before `n` pushes the value true. -/
def flag (chunk : Chunk) (n : Nat) : Bool :=
  match chunk.instr? (n - 1) with
  | some ⟨.constant (.bool b), _⟩ => b
  | _ => false

/-- The effect of the instruction `i` at `n`. -/
def effect (chunk : Chunk) (n : Nat) (i : Instr) : Effect := i.op.effect (chunk.flag n)

/-- The extents `H` are right for the chunk. -/
structure Consistent (chunk : Chunk) (H : Nat → Extent) : Prop where
  start : H 0 = ⟨0, 0⟩
  /-- No instruction takes or looks at values that are not there. -/
  values : ∀ {n i}, chunk.instr? n = some i → (chunk.effect n i).pops ≤ (H n).height
  /-- No instruction leaves scopes that are not open. -/
  scopes : ∀ {n i}, chunk.instr? n = some i → (chunk.effect n i).closes ≤ (H n).depth
  leads : ∀ {n i}, chunk.instr? n = some i →
    ∀ t ∈ i.op.successors n, H t = (H n).after (chunk.effect n i)
  /-- The flag of a class statement is pushed by the instruction before it, from which alone it is
      reached. -/
  flags : ∀ {n i}, chunk.instr? n = some i → i.op.isClass = true →
    ∃ (m : Nat) (b : Bool) (span : Option Span), n = m + 1
      ∧ chunk.instr? m = some ⟨.constant (.bool b), span⟩
      ∧ ∀ k j, chunk.instr? k = some j → n ∈ j.op.successors k → k = m

end Chunk

/-! ## The extents of shapes -/

/-- The extent of a frame of shape `l`. -/
def Shape.extent (l : Shape) : Extent := ⟨l.height, l.scopes.length⟩

/-- The extents of shapes. -/
def extents (L : Nat → Option Shape) (n : Nat) : Extent := ((L n).map Shape.extent).getD ⟨0, 0⟩

variable {R : Rules} {L : Nat → Option Shape} {l : Shape} {n : Nat}

theorem extents_eq (h : L n = some l) : extents L n = l.extent := by
  unfold extents
  rw [h]
  rfl

/-- An instruction with the effect `e` finds what it needs in a frame of shape `l`, and leaves the
    extent that the offsets `ts` have. -/
structure Shape.Leads (L : Nat → Option Shape) (l : Shape) (e : Effect) (ts : List Nat) : Prop where
  values : e.pops ≤ l.height
  scopes : e.closes ≤ l.scopes.length
  extents : ∀ t ∈ ts, ∃ k, L t = some k ∧ k.extent = l.extent.after e

namespace Shape

/-- Instructions that only take and leave values. -/
theorem Moves.leads {pops pushes : Nat} (h : l.Moves L n pops pushes) :
    l.Leads L { pops, pushes } [n + 1] := by
  obtain ⟨k, -, rfl, hk⟩ := h
  refine ⟨Nat.le_add_left .., Nat.zero_le _, ?_⟩
  rintro t (- | ⟨-, ⟨⟩⟩)
  refine ⟨_, hk, ?_⟩
  simp [extent, push, Extent.after]

/-- A branch looks at a value and leaves it. -/
theorem Leads.branch {target : Nat} (h : l.Moves L n 1 1) (ht : L target = some l) :
    l.Leads L { pops := 1, pushes := 1 } [n + 1, target] := by
  have hnext := h.leads
  have hvalue : 1 ≤ l.height := hnext.values
  refine ⟨hvalue, Nat.zero_le _, ?_⟩
  intro t hmem
  rcases List.mem_cons.1 hmem with rfl | hmem
  · exact hnext.extents _ (.head _)
  · obtain rfl := List.mem_singleton.1 hmem
    refine ⟨l, ht, ?_⟩
    simp only [extent, Extent.after, Nat.sub_zero, Nat.add_zero, Nat.sub_add_cancel hvalue]

/-- An instruction that leads to one offset. -/
theorem Leads.to {e : Effect} {t : Nat} {k : Shape} (hv : e.pops ≤ l.height)
    (hs : e.closes ≤ l.scopes.length) (ht : L t = some k) (hk : k.extent = l.extent.after e) :
    l.Leads L e [t] := by
  refine ⟨hv, hs, ?_⟩
  rintro t' (- | ⟨-, ⟨⟩⟩)
  exact ⟨k, ht, hk⟩

end Shape

/-! ## Balanced chunks -/

namespace Chunk.Balanced

variable {chunk : Chunk} {call : Bool} {i : Instr}

/-- Where the program goes on after an awaited fault, its shape is the one before the watch. -/
theorem catch_shape (hb : chunk.Balanced R call L) {message : Option String} {catchAt : Nat}
    {span : Option Span} (hi : chunk.instr? n = some ⟨.failureBegin message catchAt, span⟩) (hl : L n = some l)
    (hnext : L (n + 1) = some (l.guarded n)) : L catchAt = some l := by
  obtain ⟨k, m, _, _, e, hbegin, -, -, -, -, hk, hcatch, -⟩ := hb.guarded hnext n rfl
  cases hi.symm.trans hbegin
  cases hl.symm.trans hk
  exact hcatch

/-- Every instruction of a balanced chunk finds what it needs, and leads to offsets of the right
    extent. -/
theorem leads (hb : chunk.Balanced R call L) (hi : chunk.instr? n = some i) (hl : L n = some l) :
    l.Leads L (chunk.effect n i) (i.op.successors n) := by
  obtain ⟨l', hl', hfits, hj, -⟩ := hb.fits hi
  cases hl.symm.trans hl'
  obtain ⟨op, place⟩ := i
  obtain ⟨span, rfl⟩ := hfits.placed
  cases op with
  | constant v =>
    -- a truth value may be the flag of a class; its extent is that of any other value
    obtain ⟨-, -, hpush | ⟨b, -, hflag⟩⟩ := hfits
    · exact .to (Nat.zero_le _) (Nat.zero_le _) hpush rfl
    · exact .to (Nat.zero_le _) (Nat.zero_le _) hflag rfl
  | pop => exact Shape.Moves.leads hfits
  | declareVar name =>
    obtain ⟨-, k, -, rfl, hk⟩ := hfits
    exact .to (Nat.le_add_left ..) (Nat.zero_le _) hk
      (by simp [Shape.extent, Shape.declare, Shape.push, Extent.after, effect, Op.effect])
  | function decl =>
    obtain ⟨-, -, -, -, hk⟩ := hfits
    exact .to (Nat.zero_le _) (Nat.zero_le _) hk
      (by simp [Shape.extent, Shape.declare, Extent.after, effect, Op.effect])
  | «class» name methods =>
    obtain ⟨-, k, b, -, rfl, hk, -⟩ := hfits
    obtain ⟨m, b', s, rfl, hm, hflag⟩ := hj
    cases hflag
    -- the flag on the stack is the one that was pushed
    have hb' : chunk.flag (m + 1) = b := by
      have hm : chunk.instr? m = some ⟨.constant (.bool b), s⟩ := hm
      unfold Chunk.flag
      rw [Nat.add_sub_cancel, hm]
    unfold effect
    rw [hb']
    exact .to (by simp [Shape.flagged, Shape.push, Op.effect]) (Nat.zero_le _) hk
      (by simp [Shape.extent, Shape.declare, Shape.flagged, Shape.push, Extent.after, Op.effect])
  | lookup name depth => exact Shape.Moves.leads hfits.2
  | assign name depth => exact Shape.Moves.leads hfits.2.2
  | getField name => exact Shape.Moves.leads hfits
  | setField name => exact Shape.Moves.leads hfits
  | getSuper method depth => exact Shape.Moves.leads hfits.2
  | unary op => exact Shape.Moves.leads hfits
  | binary op => exact Shape.Moves.leads hfits
  | logical op => exact Shape.Moves.leads hfits
  | jump target => exact .to (Nat.zero_le _) (Nat.zero_le _) hfits.2 rfl
  | jumpIfFalse target => exact .branch hfits.1 hfits.2
  | repeatTest target => exact .branch hfits.1 hfits.2
  | enterScope => exact .to (Nat.zero_le _) (Nat.zero_le _) hfits.2 rfl
  | leaveScope count =>
    obtain ⟨-, hcount, hk⟩ := hfits
    exact .to (Nat.zero_le _) (Nat.le_trans hcount l.scopes.blocks_le_length) hk
      (by simp [Shape.extent, Shape.leave, Extent.after, effect, Op.effect])
  | call count => exact Shape.Moves.leads hfits
  | «return» =>
    obtain ⟨-, k, -, rfl⟩ := hfits
    exact ⟨Nat.le_add_left .., Nat.zero_le _, by rintro _ ⟨⟩⟩
  | assert message => exact Shape.Moves.leads hfits
  | failureBegin message catchAt =>
    -- a fault comes out at `catchAt` with the values and scopes there were here
    refine ⟨Nat.zero_le _, Nat.zero_le _, ?_⟩
    intro t hmem
    rcases List.mem_cons.1 hmem with rfl | hmem
    · exact ⟨_, hfits.2, rfl⟩
    · obtain rfl := List.mem_singleton.1 hmem
      exact ⟨l, hb.catch_shape hi hl hfits.2, rfl⟩
  | failureEnd =>
    obtain ⟨-, -, k, hk, hheight, hscopes⟩ := hfits
    exact .to (by rw [hheight]; exact Nat.le_add_left ..) (Nat.zero_le _) hk
      (by simp [Shape.extent, Extent.after, effect, Op.effect, hheight, hscopes])

/-- A jump leads to an offset with no flag on the stack. -/
theorem flagless_target (hb : chunk.Balanced R call L) (hi : chunk.instr? n = some i) {t : Nat}
    (ht : t ∈ i.op.successors n) (hne : t ≠ n + 1) : ∃ k, L t = some k ∧ k.flag = none := by
  obtain ⟨l, hl, hfits, -⟩ := hb.fits hi
  obtain ⟨op, place⟩ := i
  obtain ⟨span, rfl⟩ := hfits.placed
  cases op with
  | jump target =>
    obtain rfl := List.mem_singleton.1 ht
    exact ⟨l, hfits.2, hfits.1.flag⟩
  | jumpIfFalse target | repeatTest target =>
    obtain rfl | hmem := List.mem_cons.1 ht
    · exact absurd rfl hne
    · obtain rfl := List.mem_singleton.1 hmem
      exact ⟨l, hfits.2, hfits.1.calm.flag⟩
  | failureBegin message target =>
    obtain rfl | hmem := List.mem_cons.1 ht
    · exact absurd rfl hne
    · obtain rfl := List.mem_singleton.1 hmem
      exact ⟨l, hb.catch_shape hi hl hfits.2, hfits.1.flag⟩
  | «return» => exact nomatch ht
  | _ => exact absurd (List.mem_singleton.1 ht) hne

/-- The extents of the shapes of a balanced chunk are right for it. -/
theorem consistent (hb : chunk.Balanced R call L) (hstart : extents L 0 = ⟨0, 0⟩) :
    chunk.Consistent (extents L) := by
  refine ⟨hstart, fun hi => ?_, fun hi => ?_, fun hi t ht => ?_, fun {n i} hi hclass => ?_⟩
  · obtain ⟨l, hl, -⟩ := hb.fits hi
    rw [extents_eq hl]
    exact (hb.leads hi hl).values
  · obtain ⟨l, hl, -⟩ := hb.fits hi
    rw [extents_eq hl]
    exact (hb.leads hi hl).scopes
  · obtain ⟨l, hl, -⟩ := hb.fits hi
    obtain ⟨k, hk, hlevel⟩ := (hb.leads hi hl).extents t ht
    rw [extents_eq hl, extents_eq hk]
    exact hlevel
  · obtain ⟨l, hl, -, hj, -⟩ := hb.fits hi
    obtain ⟨op, span⟩ := i
    cases op with
    | «class» name methods =>
      obtain ⟨m, b, s, rfl, hm, hflag⟩ := hj
      refine ⟨m, b, s, rfl, hm, fun k j hk hmem => ?_⟩
      -- no jump leads between the flag and the class: there is no flag where a jump leads
      by_cases hkm : m + 1 = k + 1
      · exact (Nat.succ.inj hkm).symm
      · obtain ⟨l', hl', hnone⟩ := hb.flagless_target hk hmem hkm
        cases hl.symm.trans hl'
        exact nomatch hnone.symm.trans hflag
    | _ => exact nomatch hclass

/-- All offsets that an instruction leads to lie within the chunk, or at its end. -/
theorem within (hb : chunk.Balanced R call L) (hi : chunk.instr? n = some i) {t : Nat}
    (ht : t ∈ i.op.successors n) :
    t < chunk.ops.size ∨ call = false ∧ t = chunk.ops.size := by
  obtain ⟨l, hl, -⟩ := hb.fits hi
  obtain ⟨k, hk, -⟩ := (hb.leads hi hl).extents t ht
  rcases hb.inside hk with hlt | ⟨hcall, hend, -⟩
  · exact .inl hlt
  · exact .inr ⟨hcall, hend⟩

end Chunk.Balanced

end Eleu

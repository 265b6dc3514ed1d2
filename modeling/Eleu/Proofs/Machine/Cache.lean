import Eleu.Proofs.Code.Origin
import Eleu.Proofs.Code.Total
import Eleu.Proofs.Machine.Declared
import Eleu.Proofs.Scope.Distances

/-! # The chunks that a machine has noted

    A machine generates the chunk of a function on its first call and notes it under the id of the
    declaration. `chunks_coherent` says that this cannot be told from a machine that generates a
    chunk at every call: what is noted under an id is the chunk of the one declaration with that
    id, and a call enters the chunk of the declaration of the value that is called.

    Two machines that differ at most in what they have noted, all of it right, are related by a lawful
    bond (`Bond.twins_lawful`), so they stay that way; one of them may forget all chunks before each
    instruction. -/

namespace Eleu

/-- The machine with other distances and other chunks noted. -/
def Machine.withCode (m : Machine) (d : Distances) (chunks : Table Nat Chunk) : Machine :=
  { m with distances := d, chunks := chunks }

variable {o : Options} {D : List FunctionDecl} {T : List Reference} {d : Distances}
  {H : History} {m m' : Machine}

/-- The machine works with the distances `d`, and the chunks that it has noted are those of the
    declarations `D`. -/
structure Machine.Coherent (D : List FunctionDecl) (d : Distances) (m : Machine) : Prop where
  distances : m.distances = d
  chunks : ChunksOf (· ∈ D) d m.chunks

/-- Machines that work with the distances `d` and have noted chunks of declarations in `D` only. All their
    functions come from there, and they differ in nothing else. -/
abbrev Bond.twins (D : List FunctionDecl) (d : Distances) : Bond :=
  .declared (· ∈ D)
    (fun e chunks e' chunks' =>
      (e = d ∧ ChunksOf (· ∈ D) d chunks) ∧ e' = d ∧ ChunksOf (· ∈ D) d chunks')
    fun _ => True

theorem Chunk.From.declared {O : Origin} {c : Chunk} (h : c.From O) : c.Declared O.declared := by
  intro n i hi
  have hop := (h hi).op
  cases hi : i.op with
  | constant v =>
    rw [hi] at hop
    exact hop.plain.ifFunction _
  | function decl =>
    rw [hi] at hop
    exact hop
  | «class» name ms =>
    rw [hi] at hop
    exact hop
  | _ => trivial

/-- Declarations of the same id have the same chunk, so it does not matter which chunks were noted. -/
theorem Bond.twins_lawful (ho : o.TameHost) (hids : IdsTell D)
    (hinner : ∀ a ∈ D, ∀ b ∈ declarationsIn a.body, b ∈ D) : (Bond.twins D d).Lawful o := by
  refine declared_lawful (ho.declared _) fun {m m' decl} hdecl hm => ?_
  obtain ⟨⟨rfl, hnoted⟩, hd, hnoted'⟩ := hm.code
  rw [← hd] at hnoted'
  have hown : ∀ e, ∀ a b, a ∈ D → b ∈ D → a.id = b.id → functionChunk e a = functionChunk e b := by
    intro e a b ha hb hid
    rw [hids a ha b hb hid]
  obtain ⟨chunks, hchunks, heq⟩ := Exec.chunkFor_own hnoted (hown _) decl hdecl
  obtain ⟨chunks', hchunks', heq'⟩ := Exec.chunkFor_own hnoted' (hown _) decl hdecl
  rw [hd] at hchunks' heq'
  have hfrom := functionChunk_from (d := m.distances)
    (O := ⟨(· ∈ D), fun _ => True, fun _ _ _ => trivial, fun ha => hinner _ ha⟩) hdecl
  rw [heq, heq']
  cases hc : functionChunk m.distances decl with
  | ok chunk =>
    rw [hc] at hfrom
    exact .ok ⟨trivial, { hm with code := ⟨⟨rfl, hchunks⟩, rfl, hchunks'⟩ }⟩ ⟨rfl, hfrom.declared⟩
  | error f => exact .error ⟨trivial, { hm with code := ⟨⟨rfl, hchunks⟩, rfl, hchunks'⟩ }⟩ trivial

namespace Machine

/-- The machine without the chunks that it has noted. -/
def forget (m : Machine) : Machine := { m with chunks := {} }

/-- A machine with a twin is coherent. -/
theorem coherent_of_twins (h : (Bond.twins D d).Machines m m') : m.Coherent D d := ⟨h.code.1.1, h.code.1.2⟩

/-- The twin may forget its chunks. -/
theorem twins_forget (h : (Bond.twins D d).Machines m m') : (Bond.twins D d).Machines m m'.forget :=
  { h with code := ⟨h.code.1, h.code.2.1, fun _ _ hget => nomatch hget⟩ }

/-- But for the chunks, twins are the same. -/
theorem forget_eq_of_twins (h : (Bond.twins D d).Machines m m') : m'.forget = m.forget := by
  have hstack := (forall₂_diagonal.1 h.stack).1
  have hframes : m'.frames = m.frames := by
    have hf := h.frames
    generalize m.frames = fs at hf ⊢
    generalize m'.frames = fs' at hf ⊢
    induction hf with
    | nil => rfl
    | cons hf _ ih =>
      cases hf with
      | mk hc => rw [hc.1, ih]
  obtain ⟨s', ⟨rfl, -⟩, hworld⟩ := h.world
  unfold forget
  rw [hworld, h.globals.1, h.env.1, h.envs.1, hstack, hframes, h.handlers.1, h.count, h.failed.1,
    h.code.2.1, h.code.1.1]

/-! ## Runs -/

/-- Executes one instruction with no chunk noted, so that a call generates the chunk of its function. -/
def stepAnew (o : Options) (m : Machine) : Verdict × Machine := m.forget.step o

/-- Executes instructions until the program ends, and generates a chunk at every call. -/
def interpretAnew (o : Options) : (fuel : Nat) → Machine → Option Verdict × Machine
  | 0, m => (none, m)
  | n + 1, m =>
    match m.world.poll o with
    | (true, world) => (some .runtimeError, { m with world := world }.fail o { cause := .cancelled })
    | (false, world) =>
      match { m with world := world }.stepAnew o with
      | (.nextStep, m) => m.interpretAnew o n
      | (verdict, m) => (some verdict, m)

variable {m₀ : Machine}

/-- The chunks stay right as long as the program runs. -/
theorem twins_execution (L : (Bond.twins D d).Lawful o) (h₀ : (Bond.twins D d).Machines m₀ m₀)
    (hx : m₀.Execution o m) : (Bond.twins D d).Machines m m := by
  induction hx with
  | start => exact h₀
  | step hx ih => exact (L.step trivial ih).machines
  | polled hx ih => exact ih.inJournal (World.store_poll _ o) (ih.world.poll o).2

/-- Whether chunks are noted or generated at every call, the program runs in the same way. -/
theorem twins_interpret (L : (Bond.twins D d).Lawful o) (h : (Bond.twins D d).Machines m m') (fuel : Nat) :
    (m'.interpretAnew o fuel).1 = (m.interpret o fuel).1
      ∧ (Bond.twins D d).Machines (m.interpret o fuel).2 (m'.interpretAnew o fuel).2 := by
  induction fuel generalizing m m' with
  | zero => exact ⟨rfl, h⟩
  | succ n ih =>
    obtain ⟨hstop, hworld⟩ := h.world.poll o
    have hpolled := h.inJournal (World.store_poll m.world o) hworld
    rw [Machine.interpret, interpretAnew]
    generalize m.world.poll o = p at hstop hpolled ⊢
    generalize m'.world.poll o = p' at hstop hpolled ⊢
    obtain ⟨_, world⟩ := p
    obtain ⟨stop, world'⟩ := p'
    obtain rfl : stop = _ := hstop
    cases stop with
    | true => exact ⟨rfl, hpolled.fail trivial _⟩
    | false =>
      -- the second machine forgets its chunks, and the step makes them twins again
      obtain ⟨hverdict, -, hafter, -⟩ := L.step trivial (twins_forget hpolled)
      dsimp only at hverdict hafter ⊢
      unfold stepAnew
      generalize Machine.step o { m with world := world } = y at hverdict hafter ⊢
      generalize Machine.step o (forget { m' with world := world' }) = y' at hverdict hafter ⊢
      obtain ⟨_, t⟩ := y
      obtain ⟨verdict, t'⟩ := y'
      obtain rfl : verdict = _ := hverdict
      cases verdict with
      | nextStep => exact ih hafter
      | ok | compileError | runtimeError => exact ⟨rfl, hafter⟩

end Machine

/-! ## Calls of function values -/

/-- A function that a value of the program enters is one of its declarations. -/
theorem Value.Enters.known {S : Setting} {s : Store} {v : Value} {decl : FunctionDecl}
    (h : v.Enters s decl) (hs : s.Obeys S.law) (hv : v.Obeys S.law s) : ∃ Γ, S.rules.known decl Γ := by
  match v, h with
  | .callable (.closure c), h =>
    obtain rfl : c.decl = decl := h
    obtain ⟨-, Γ, hknown, -⟩ := hv
    exact ⟨Γ, hknown⟩
  | .callable (.classRef r), h =>
    obtain ⟨c, hc, rfl⟩ := h
    obtain ⟨_, -, Γ, hknown, -⟩ := hs.findMethod? hc
    exact ⟨_, hknown⟩

/-- With as many arguments as the function has parameters, the arity is right. -/
theorem Value.Enters.arity {s : Store} {c : Callable} {decl : FunctionDecl}
    (h : (Value.callable c).Enters s decl) : s.checkArity c decl.params.length = .ok () := by
  match c, h with
  | .closure c, h =>
    obtain rfl : c.decl = decl := h
    simp [Store.checkArity, Store.arity?]
  | .classRef r, h =>
    obtain ⟨c, hc, rfl⟩ := h
    simp [Store.checkArity, Store.arity?, hc]

namespace Exec

/-- A function of the program is entered with its own chunk, noted or not. -/
theorem enter_own (h : m.Coherent D d) (hids : IdsTell D) {c : Closure}
    (hc : c.decl ∈ D) {chunk : Chunk} (hchunk : functionChunk d c.decl = .ok chunk)
    (args : List Value) (span : Option Span) :
    ∃ chunks, (m.withCode d chunks).Coherent D d
      ∧ enter o c args span m =
          if o.maxCallDepth < m.frames.length then .error { cause := .tooManyCalls } m
          else .ok () ((m.withCode d chunks).entered c args span chunk) := by
  rw [enter_apply, h.distances, hchunk]
  cases hget : m.chunks.get? c.decl.id with
  | some noted =>
    -- the chunk was noted for a declaration of the same id, which is this one
    obtain ⟨decl, hdecl, hid, hnoted⟩ := h.chunks _ _ hget
    obtain rfl : decl = c.decl := hids _ hdecl _ hc hid
    obtain rfl : chunk = noted := Except.ok.inj (hchunk.symm.trans hnoted)
    refine ⟨m.chunks, ⟨rfl, h.chunks⟩, ?_⟩
    rw [← h.distances]
    rfl
  | none =>
    refine ⟨m.chunks.insert c.decl.id chunk, ⟨rfl, h.chunks.insert hc hchunk⟩, ?_⟩
    rw [← h.distances]
    rfl

/-- The frame of a function of the program has the chunk of this function. -/
theorem enter_frame (h : m.Coherent D d) (hids : IdsTell D) {c : Closure}
    (hc : c.decl ∈ D) {chunk : Chunk} (hchunk : functionChunk d c.decl = .ok chunk)
    (hdepth : m.frames.length ≤ o.maxCallDepth) (args : List Value) (span : Option Span) :
    ∃ t base, enter o c args span m = .ok () t
      ∧ t.frames = { chunk, ip := 0, name := c.decl.name, span, base } :: m.frames := by
  obtain ⟨chunks, -, heq⟩ := enter_own (o := o) h hids hc hchunk args span
  rw [if_neg (Nat.not_lt_of_ge hdepth)] at heq
  exact ⟨_, _, heq, rfl⟩

/-- A value that enters a function of the program runs the chunk of this function. -/
theorem call_frame (h : m.Coherent D d) (hids : IdsTell D) {v : Value}
    {decl : FunctionDecl} (hv : v.Enters m.world.store decl) (hdecl : decl ∈ D) {chunk : Chunk}
    (hchunk : functionChunk d decl = .ok chunk) (hdepth : m.frames.length ≤ o.maxCallDepth)
    {args : List Value} (hargs : args.length = decl.params.length) (span : Option Span) :
    ∃ t base, call o v args span m = .ok () t
      ∧ t.frames = { chunk, ip := 0, name := decl.name, span, base } :: m.frames := by
  match v, hv with
  | .callable (.closure c), hv =>
    have harity := Value.Enters.arity hv
    obtain rfl : c.decl = decl := hv
    rw [call_closure, hargs, harity]
    exact enter_frame h hids hdecl hchunk hdepth args span
  | .callable (.classRef r), hv =>
    have harity := Value.Enters.arity hv
    obtain ⟨init, hinit, rfl⟩ := hv
    rw [call_class, hargs, harity]
    dsimp only
    rw [Store.findMethod?_newInstance, hinit]
    have hbound : (m.setStore ((m.world.store.newInstance r).2.bind init
        m.world.store.instances.size).2).Coherent D d := ⟨h.distances, h.chunks⟩
    exact enter_frame (c := ((m.world.store.newInstance r).2.bind init _).1) hbound hids hdecl hchunk
      hdepth args span

end Exec

namespace Machine

/-- The frame on top is about to call a value with `n` arguments, and the value enters the function. -/
structure Calls (m : Machine) (frame : Frame) (frames : List Frame) (decl : FunctionDecl) (n : Nat)
    (span : Option Span) : Prop where
  frames : m.frames = frame :: frames
  next : frame.chunk.instr? frame.ip = some ⟨.call n, span⟩
  callee : ∃ v st, m.stack = v :: st ∧ v.Enters m.world.store decl

/-- The states of a run: those of its execution, and the one in which the host has stopped it. -/
def InRun (o : Options) (m₀ m : Machine) : Prop :=
  Execution o m₀ m ∨ ∃ m', Execution o m₀ m' ∧ m = m'.fail o { cause := .cancelled }

/-- A call of a function of the program puts a frame with the chunk of the function on top. -/
theorem Coherent.calls (h : m.Coherent D d) (hids : IdsTell D)
    (hg : m.Good (Setting.exact D T d H).footing o) {frame : Frame} {frames : List Frame}
    {decl : FunctionDecl} {n : Nat} {span : Option Span} (hc : m.Calls frame frames decl n span) :
    decl ∈ D ∧ ∃ chunk, functionChunk d decl = .ok chunk
      ∧ (n = decl.params.length → m.frames.length ≤ o.maxCallDepth →
          ∃ base, (m.step o).2.frames = { chunk, ip := 0, name := decl.name, span, base }
            :: { frame with ip := frame.ip + 1 } :: frames) := by
  obtain ⟨v, st, hst, henters⟩ := hc.callee
  obtain ⟨Γ, hknown⟩ := henters.known hg.holds.store
    (hg.holds.stack v (by rw [hst]; exact List.mem_cons_self))
  obtain ⟨chunk, hchunk⟩ := Setting.exact_chunk hknown
  refine ⟨Setting.exact_mem hknown, chunk, hchunk, ?_⟩
  rintro rfl hdepth
  rcases hg.rows with ⟨hnil, -⟩ | ⟨r, rs, hruns⟩
  · exact nomatch hnil.symm.trans hc.frames
  · cases (hruns.frames : m.frames = r.frame :: rs.map Row.frame).symm.trans hc.frames
    have hp := hruns.ready (o := o) hg.holds hc.next
    obtain ⟨w, hready, hw⟩ := ready_eq o r.frame (rs.map Row.frame) m
    rw [step_eq hc.frames hc.next]
    rw [hready] at hp ⊢
    obtain ⟨v', st', hst', hn⟩ := hp.callee
    cases hst.symm.trans hst'
    rw [Exec.execute_call hst' hn]
    obtain ⟨t, base, ht, hframes⟩ := Exec.call_frame (o := o)
      (m := { m with
        world := w
        frames := { r.frame with ip := r.frame.ip + 1 } :: rs.map Row.frame
        count := m.count + 1
        stack := st.drop decl.params.length })
      ⟨h.distances, h.chunks⟩ hids (hw ▸ henters) (Setting.exact_mem hknown) hchunk
      (by rw [hc.frames] at hdepth; exact hdepth)
      (by rw [List.length_reverse, List.length_take_of_le hn]) span
    rw [ht]
    refine ⟨base, ?_⟩
    show t.status.2.frames = _
    unfold Machine.status
    rw [hframes]
    exact hframes

end Machine

/-! ## A whole program -/

/-- A machine that sets about its first program has no chunks. -/
theorem Machine.twins_beginning (ns : List HostNative) {items : List Item} (hr : resolve items = .ok d)
    (hunion : ({} : Distances).union d = d) :
    (Bond.twins (declarationsIn items) d).Machines (.beginning ns items) (.beginning ns items) := by
  have hnone : ChunksOf (· ∈ declarationsIn items) d {} := by rintro _ _ ⟨⟩
  have hloaded : (Bond.twins (declarationsIn items) d).Machines
      { world := { store := .hosted ns }, globals := 0, env := 0, distances := d }
      { world := { store := .hosted ns }, globals := 0, env := 0, distances := d } :=
    .idle ⟨_, ⟨rfl, (Store.ready_hosted ns).1⟩, rfl⟩ trivial ⟨⟨rfl, hnone⟩, rfl, hnone⟩ trivial
  have hchunk := programChunk_from (d := d) (O := .ofItems items) "script" (fun _ h => h) fun _ h => h
  rw [Machine.beginning, Machine.hosted_eq]
  unfold Machine.start
  rw [hr]
  dsimp only
  rw [hunion]
  split
  · exact hloaded.inJournal rfl (hloaded.world.complain _)
  · next chunk hc =>
      rw [hc] at hchunk
      exact hloaded.begun trivial ⟨rfl, hchunk.declared⟩

/-- What is noted under an id is the chunk of the one declaration that has it. -/
def Machine.Notes (items : List Item) (d : Distances) (m : Machine) : Prop :=
  ∀ id chunk, m.chunks.get? id = some chunk →
    ∃ decl ∈ declarationsIn items, (∀ other ∈ declarationsIn items, other.id = id ↔ other = decl)
      ∧ functionChunk d decl = .ok chunk

/-- A value that is called runs the chunk of its own declaration, if the number of arguments is right
    and the call does not nest too deep. -/
def Machine.CallsOwn (o : Options) (items : List Item) (d : Distances) (m : Machine) : Prop :=
  ∀ frame frames decl n span, m.Calls frame frames decl n span →
    decl ∈ declarationsIn items ∧ ∃ chunk, functionChunk d decl = .ok chunk
      ∧ (n = decl.params.length → m.frames.length ≤ o.maxCallDepth →
          ∃ base, (m.step o).2.frames = { chunk, ip := 0, name := decl.name, span, base }
            :: { frame with ip := frame.ip + 1 } :: frames)

/-- Whenever a fresh machine runs a source text, the chunks it has noted are those of the declarations
    with the same ids, and a call runs the chunk of the declaration that is called. So noting
    chunks makes no difference: a machine that generates one at every call gives the same verdict
    after the same number of steps, in the same state up to what is noted. -/
theorem chunks_coherent (o : Options) (ho : o.TameHost) (ns : List HostNative)
    {recovery : Recovery} {unit : Nat} {file source : String} {items : List Item}
    (parsed : parseText recovery unit file source = .ok items) (resolved : resolve items = .ok d) :
    (∀ m, (Machine.beginning ns items).InRun o m → m.Notes items d ∧ m.CallsOwn o items d)
      ∧ ∀ fuel, ((Machine.beginning ns items).interpret o fuel).1
            = ((Machine.beginning ns items).interpretAnew o fuel).1
          ∧ ((Machine.beginning ns items).interpret o fuel).2.forget
            = ((Machine.beginning ns items).interpretAnew o fuel).2.forget := by
  obtain ⟨hids, hexact⟩ := parseText_exact parsed resolved
  have hunion := union_resolved resolved
  have hgood : (Machine.beginning ns items).Good
      (Setting.exact _ _ _ ((Machine.beginning ns items).history o)).footing o :=
    .start_exact resolved hids hexact
  rw [hunion] at hgood
  have hlawful : (Bond.twins (declarationsIn items) d).Lawful o :=
    Bond.twins_lawful ho hids fun a ha b hb => (Origin.ofItems items).inner ha b hb
  have htwins := Machine.twins_beginning ns resolved hunion
  have hnotes : ∀ {m : Machine}, m.Coherent (declarationsIn items) d → m.Notes items d := by
    intro m hm id chunk hget
    obtain ⟨decl, hdecl, rfl, hchunk⟩ := hm.chunks id chunk hget
    exact ⟨decl, hdecl, fun other hother => ⟨hids other hother decl hdecl, fun h => h ▸ rfl⟩, hchunk⟩
  constructor
  · rintro m (hm | ⟨m, hm, rfl⟩)
    · have hcom := Machine.coherent_of_twins (Machine.twins_execution hlawful htwins hm)
      exact ⟨hnotes hcom, fun frame frames decl n span hcalls =>
        hcom.calls hids (hgood.execution ho (.refl _) hm) hcalls⟩
    · -- a machine that was stopped has no frame left to call from
      have hcom := (Machine.twins_execution hlawful htwins hm).fail (o := o) trivial { cause := .cancelled }
      exact ⟨hnotes (Machine.coherent_of_twins hcom), fun _ _ _ _ _ hcalls => nomatch hcalls.frames⟩
  · intro fuel
    obtain ⟨hverdict, hafter⟩ := Machine.twins_interpret hlawful htwins fuel
    exact ⟨hverdict.symm, (Machine.forget_eq_of_twins hafter).symm⟩

/-- A machine comes to call an initialiser whose chunk it has noted. -/
theorem exists_noted : ∃ (items : List Item) (d : Distances) (m : Machine) (id : Nat) (chunk : Chunk),
    parseText .resume 0 "" "class A { init(x) { this.x = x; } } A(1); A(2);" = .ok items
      ∧ resolve items = .ok d ∧ (Machine.beginning [] items).Execution {} m
      ∧ m.chunks.get? id = some chunk := by
  have hcheck : ((parseText .resume 0 "" "class A { init(x) { this.x = x; } } A(1); A(2);").toOption.any
      fun items => (resolve items).toOption.any fun _ => ((declarationsIn items).head?.bind fun decl =>
        ((Machine.beginning [] items).after {} 8).chunks.get? decl.id).isSome) = true := by
    decide +kernel
  obtain ⟨items, hparsed, hcheck⟩ := Outcome.any_toOption.1 hcheck
  obtain ⟨d, hresolved, hcheck⟩ := Outcome.any_toOption.1 hcheck
  obtain ⟨chunk, hchunk⟩ := Option.isSome_iff_exists.1 hcheck
  obtain ⟨decl, -, hget⟩ := Option.bind_eq_some_iff.1 hchunk
  exact ⟨items, d, _, decl.id, chunk, hparsed, hresolved, .after .start 8, hget⟩

/-- An initialiser that is called twice. -/
theorem chunks_coherent_init : ∃ (items : List Item) (d : Distances) (m : Machine) (id : Nat)
    (chunk : Chunk),
    parseText .resume 0 "" "class A { init(x) { this.x = x; } } A(1); A(2);" = .ok items
      ∧ resolve items = .ok d ∧ (Machine.beginning [] items).InRun {} m
      ∧ m.chunks.get? id = some chunk ∧ m.CallsOwn {} items d
      ∧ ∃ decl ∈ declarationsIn items, (∀ other ∈ declarationsIn items, other.id = id ↔ other = decl)
          ∧ functionChunk d decl = .ok chunk := by
  obtain ⟨items, d, m, id, chunk, hparsed, hresolved, hexec, hget⟩ := exists_noted
  obtain ⟨hnotes, hcalls⟩ :=
    (chunks_coherent {} tameHost_default [] hparsed hresolved).1 m (.inl hexec)
  exact ⟨items, d, m, id, chunk, hparsed, hresolved, .inl hexec, hget, hcalls, hnotes id chunk hget⟩

end Eleu

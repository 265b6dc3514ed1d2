import Eleu.Proofs.Code.Origin
import Eleu.Proofs.Machine.Bond
import Eleu.Proofs.Machine.Reachable
import Eleu.Proofs.Store.Founded

/-! # What the machine comes from

    A machine comes from an origin if its store is founded, all that it keeps refers to what is there,
    and its code and its handlers come from the origin. This relates the machine to itself by a lawful
    bond (`Origin.bond_lawful`): executing an instruction adds to the store and leaves a machine that comes
    from there, and a fault that arises and has a place has it in the origin. So it is with every step
    of a host (`Machine.From.next`). -/

namespace Eleu

/-- A founded store and what refers to it, all from the origin, beside itself. -/
def Origin.bond (O : Origin) : Bond where
  store s s' := s' = s ∧ s.Founded O.declared
  later := Store.Extends
  value s v v' := v' = v ∧ v.Present O.declared s
  env s e := e < s.envs.size
  decl d d' := d' = d ∧ O.declared d
  chunk c c' := c' = c ∧ c.From O
  code d chunks d' chunks' :=
    d' = d ∧ chunks' = chunks ∧ ∀ {id : Nat} {c : Chunk}, chunks.get? id = some c → c.From O
  place p := ∃ q, p = some q ∧ O.place q
  fault := Fault.From O
  flag _ := True
  later_refl := .refl
  later_trans := .trans
  value_later hl h := ⟨h.1, hl.present h.2⟩
  env_later hl h := Nat.lt_of_lt_of_le h hl.envs

/-- A machine that comes from the origin. -/
abbrev Machine.From (O : Origin) (m : Machine) : Prop := O.bond.Machines m m

/-- What an instruction, or a step of the host, has made of the machine `m`. -/
structure Machine.Evolves (O : Origin) (m m' : Machine) : Prop where
  «extends» : m.world.store.Extends m'.world.store
  «from» : m'.From O

variable {O : Origin} {o : Options} {m m' : Machine}

/-- A call finds or generates a chunk that comes from the origin. -/
theorem Origin.chunkFor {decl : FunctionDecl} (hd : O.declared decl) (hm : O.bond.Machines m m') :
    O.bond.Ends m.world.store (fun _ c c' => c' = c ∧ c.From O) (Exec.chunkFor decl m)
      (Exec.chunkFor decl m') := by
  obtain ⟨hdist, hsame, hchunks⟩ := hm.code
  unfold Exec.chunkFor
  rw [Outcome.bind_apply, Outcome.bind_apply, Outcome.get_apply, Outcome.get_apply]
  dsimp only
  rw [hdist, hsame]
  cases hget : m.chunks.get? decl.id with
  | some c => exact .ok ⟨.refl _, hm⟩ ⟨rfl, hchunks hget⟩
  | none =>
    have hchunk := functionChunk_from (d := m.distances) hd
    dsimp only
    cases hf : functionChunk m.distances decl with
    | error f =>
      rw [hf] at hchunk
      exact .error ⟨.refl _, hm⟩ hchunk.from
    | ok c =>
      rw [hf] at hchunk
      have hnoted : ∀ {id : Nat} {c' : Chunk}, (m.chunks.insert decl.id c).get? id = some c' → c'.From O := by
        intro id c' hget
        rw [Table.get?_insert] at hget
        split at hget
        · exact Option.some.inj hget ▸ hchunk
        · exact hchunks hget
      exact .ok ⟨.refl _, { hm with code := ⟨rfl, rfl, hnoted⟩ }⟩ ⟨rfl, hchunk⟩

/-- A member that is found is there. -/
theorem Origin.members {s : Store} {x : Except Cause Member}
    (h : ∀ f, x = .ok f → f.Obeys (Store.presence O.declared) s) : YieldAlike (O.bond.Members s) x x := by
  cases x with
  | error c => exact .error c
  | ok f =>
    have hf := h f rfl
    cases f with
    | value v => exact .ok (.value ⟨rfl, hf⟩)
    | method c this =>
      have hc : O.bond.Closures s c c := ⟨rfl, hf.elim fun _ hc => hc⟩
      exact .ok (.method hc this)

theorem Op.From.ops {op : Op} (h : op.From O) : O.bond.Ops op op := by
  cases op with
  | constant v => exact .constant fun _ => ⟨rfl, h.present⟩
  | function decl => exact .function ⟨rfl, h⟩
  | «class» name ms => exact .class name (List.forall₂_same.2 fun d hd => ⟨rfl, h d hd⟩)
  | _ => exact .same trivial

/-- Every operation lets the store evolve, if the natives of the host do. -/
theorem Origin.bond_lawful (ho : o.HonestHost) (ha : O.Admits o) : O.bond.Lawful o where
  toReads := .of_eq (·.1) (·.1) (·.1)
  shape h := h.1 ▸ .refl _
  inert h := ⟨rfl, h.present⟩
  decl h := h.1 ▸ ⟨rfl, rfl⟩
  function h he := ⟨by rw [h.1], h.2, he⟩
  closure h := by
    obtain ⟨heq, hc⟩ := h
    cases heq
    exact ⟨⟨rfl, hc.1⟩, rfl, hc.2⟩
  moved h he := by
    obtain ⟨heq, hc⟩ := h
    cases heq
    exact ⟨rfl, hc.1, he⟩
  define e name h hv := by
    obtain ⟨rfl, hs⟩ := h
    obtain ⟨rfl, hv⟩ := hv
    have hd := Store.Evolves.define hs e name hv
    exact ⟨hd.extends, rfl, hd.founded⟩
  newEnv h hp := by
    obtain ⟨rfl, hs⟩ := h
    have hn := Store.Evolves.newEnv hs hp
    refine ⟨hn.extends, ⟨rfl, hn.founded⟩, ?_⟩
    show _ < (Store.newEnv _ _).2.envs.size
    rw [Store.envs_size_newEnv]
    exact Nat.lt_succ_self _
  outer h he hp := Nat.lt_trans (h.2.older hp) he
  newInstance r h := by
    obtain ⟨rfl, hs⟩ := h
    have hn := Store.Evolves.newInstance hs r
    exact ⟨hn.extends, rfl, hn.founded⟩
  setField r name h hv := by
    obtain ⟨rfl, hs⟩ := h
    obtain ⟨rfl, hv⟩ := hv
    have hd := Store.Evolves.setField hs r name hv
    exact ⟨hd.extends, rfl, hd.founded⟩
  declareClass {s s' e x x' ms ms'} name h he hx hms := by
    obtain ⟨rfl, hs⟩ := h
    obtain ⟨rfl, hms⟩ := forall₂_diagonal.1 hms
    have hsame : x' = x ∧ ∀ v ∈ x, v.Present O.declared s' := by
      cases hx with
      | none => exact ⟨rfl, by rintro _ ⟨⟩⟩
      | some hv => exact ⟨by rw [hv.1], by rintro _ ⟨⟩; exact hv.2⟩
    obtain ⟨rfl, hx⟩ := hsame
    cases hd : Store.declareClass e name x' ms' s' with
    | ok u t =>
      have ht := Store.Evolves.declareClass hs he hx hms hd
      exact .ok ⟨ht.extends, rfl, ht.founded⟩ trivial
    | error c t =>
      -- it has changed nothing
      cases Store.declareClass_atomic _ _ _ _ hd
      exact .error ⟨.refl _, rfl, hs⟩ trivial
  getAt e name n h := by
    obtain ⟨rfl, hs⟩ := h
    exact .diagonal fun _ hv => (hs.getAt e name n).of_ok hv
  getFrom e name h := by
    obtain ⟨rfl, hs⟩ := h
    exact .diagonal fun _ hv => (hs.get e name).of_ok hv
  findMethod {s s'} r name h := by
    obtain ⟨rfl, hs⟩ := h
    cases hc : s'.findMethod? r name with
    | none => exact .none
    | some c => exact .some ⟨rfl, hs.findMethod? hc⟩
  findMember r name h := by
    obtain ⟨rfl, hs⟩ := h
    exact members fun _ hf => hs.obeys.findMember hf
  findSuper e n name h := by
    obtain ⟨rfl, hs⟩ := h
    exact members fun _ hf => hs.obeys.findSuper hf
  native {w w' args args'} f hw hargs := by
    obtain ⟨s', ⟨rfl, hs⟩, rfl⟩ := hw
    obtain ⟨rfl, hargs⟩ := forall₂_diagonal.1 hargs
    have hcall := (NativeM.call_honest ho f).evolves hs hargs
    have hfrom := NativeM.call_from ha f args' w
    cases hr : NativeM.call o f args' w with
    | ok v t =>
      rw [hr] at hcall
      exact .ok ⟨hcall.1.extends, _, ⟨rfl, hcall.1.founded⟩, rfl⟩ ⟨rfl, hcall.2⟩
    | error g t =>
      rw [hr] at hcall hfrom
      exact .error ⟨hcall.extends, _, ⟨rfl, hcall.founded⟩, rfl⟩ hfrom
  instr {c c'} n h := by
    obtain ⟨rfl, hc⟩ := h
    cases hi : c'.instr? n with
    | none => exact .none
    | some i => exact .some ⟨(hc hi).op.ops, rfl, (hc hi).span⟩
  chunkFor h hm := by
    obtain ⟨rfl, hd⟩ := h
    exact chunkFor hd hm
  unplaced := Fault.from_unplaced
  placed h := Fault.Placed.from h
  located hf hp := hf.locate hp

/-! ## Steps -/

/-- The world after the report of a fault with a place in the origin. -/
def World.Reported (w : World) (O : Origin) (o : Options) : Prop :=
  ∃ (before : World) (f : Fault) (calls : List String),
    f.Placed O ∧ w = before.reportFault o f calls

namespace Machine

theorem From.store (h : m.From O) : m.world.store.Founded O.declared := by
  obtain ⟨_, hs, -⟩ := h.world
  exact hs.2

/-- What is written does not matter. -/
theorem From.journal (h : m.From O) {w : World} (hw : w.store = m.world.store) :
    m.Evolves O { m with world := w } := by
  have hs : w.store.Founded O.declared := hw ▸ h.store
  exact ⟨hw ▸ .refl _, h.inJournal hw ⟨_, ⟨rfl, hs⟩, rfl⟩⟩

/-- A program that was ended by a fault. -/
theorem From.ended (h : m.From O) (f : Fault) : m.Evolves O (m.fail o f) := by
  refine ⟨?_, h.fail trivial f⟩
  show m.world.store.Extends (World.reportFault ..).store
  rw [World.store_reportFault]
  exact .refl _

/-- No fault has ended a program whose status is asked for; one that goes on has a frame. -/
theorem status_cases (m : Machine) :
    m.status.1 ≠ .runtimeError ∧ (m.status.1 = .nextStep → m.status.2.frames ≠ []) := by
  unfold Machine.status
  split
  · exact ⟨nofun, nofun⟩
  · next program hf =>
      split
      · exact ⟨nofun, nofun⟩
      · refine ⟨nofun, fun _ hnil => ?_⟩
        exact nomatch hf.symm.trans hnil
  · next h₁ h₂ => exact ⟨nofun, fun _ hnil => absurd hnil h₁⟩

/-- A program that goes on has a frame. -/
theorem step_frames (h : (m.step o).1 = .nextStep) : (m.step o).2.frames ≠ [] := by
  unfold Machine.step at h ⊢
  split
  · next hf =>
      rw [hf] at h
      dsimp only at h
      split at h <;> cases h
  · next frame frames hf =>
      rw [hf] at h
      dsimp only at h ⊢
      split
      · next hi =>
          rw [hi] at h
          cases h
      · next i hi =>
          rw [hi] at h
          dsimp only at h ⊢
          split
          · next hr =>
              rw [hr] at h
              exact (status_cases _).2 h
          · next hr =>
              rw [hr] at h
              dsimp only at h ⊢
              split
              · next hm =>
                  rw [hm] at h
                  exact (status_cases _).2 h
              · next hm =>
                  rw [hm] at h
                  cases h

/-- A step of the machine. Where it ends the program with a fault, it has reported one that has a
    place. -/
theorem From.advance (ho : o.HonestHost) (ha : O.Admits o) (h : m.From O) :
    m.Evolves O (m.step o).2
      ∧ (m.frames ≠ [] → (m.step o).1 = .runtimeError → (m.step o).2.world.Reported O o) := by
  have hstep := (O.bond_lawful ho ha).step trivial h
  exact ⟨⟨hstep.later, hstep.machines⟩, hstep.reported⟩

/-- The machine is made ready for a program of the origin. -/
theorem From.start (h : m.From O) {items : List Item} (hp : ∀ p ∈ itemsSpans items, O.place p)
    (hd : ∀ f ∈ declarationsIn items, O.declared f) :
    m.Evolves O (m.start items).2 ∧ ((m.start items).1 = .nextStep → (m.start items).2.frames ≠ []) := by
  unfold Machine.start
  split
  · exact ⟨h.journal rfl, nofun⟩
  · next d hr =>
      have hchunk := programChunk_from (d := m.distances.union d) "script" hp hd
      have hloaded : ({ m with distances := m.distances.union d } : Machine).From O :=
        { h with code := ⟨rfl, rfl, h.code.2.2⟩ }
      dsimp only
      split
      · exact ⟨⟨.refl _, hloaded.inJournal rfl (hloaded.world.complain _)⟩, nofun⟩
      · next chunk hc =>
          rw [hc] at hchunk
          exact ⟨⟨.refl _, hloaded.begun trivial ⟨rfl, hchunk⟩⟩, nofun⟩

/-! ## What a host does -/

/-- A fresh machine has the library and nothing else. -/
theorem from_fresh : Machine.fresh.From O :=
  .idle ⟨_, ⟨rfl, Store.library_founded.1⟩, rfl⟩ (Store.library_founded (D := O.declared)).2
    ⟨rfl, rfl, by rintro _ _ ⟨⟩⟩ trivial

theorem From.defineNative (h : m.From O) (name : String) (params : List String) :
    m.Evolves O (m.defineNative name params) := by
  have hs := Store.Evolves.defineNative h.store m.globals name params .host
  exact ⟨hs.extends, h.withStore hs.extends ⟨rfl, hs.founded⟩⟩

/-- What comes next adds to the store and comes from the origin. -/
theorem From.next (ho : o.HonestHost) (h : m.From .all) (hn : m.Next o m') : m.Evolves .all m' := by
  cases hn with
  | defineNative name params => exact h.defineNative name params
  | start parsed => exact (h.start (fun _ _ => trivial) fun _ _ => trivial).1
  | step => exact (h.advance ho (Origin.all_admits o)).1
  | polled => exact h.journal (World.store_poll m.world o)
  | cancelled => exact h.ended _
  | complained lines => exact h.journal (World.store_complainAll m.world lines)

/-- All reachable machines are in order. -/
theorem Reachable.from (ho : o.HonestHost) (h : m.Reachable o) : m.From .all := by
  induction h with
  | fresh => exact from_fresh
  | next _ hn ih => exact (ih.next ho hn).from

end Machine

end Eleu

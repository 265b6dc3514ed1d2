import Eleu.Proofs.Machine.Preserve

/-! # Declarations, scopes, calls and handlers

    The instructions that change more than the value stack. `Exec.deeds` tells for which scope an
    instruction makes a new environment, and which methods it adds to a class. The last theorem,
    `Exec.execute_outcome`, says of every instruction of a balanced chunk what it does to the
    rows. -/

namespace Eleu

variable {methods : List FunctionDecl} {name : String} {st : List Value} {place : Option Span}

/-- Calling the value enters the function: it is the function, or a class with the function as its
    initialiser. -/
def Value.Enters (s : Store) (decl : FunctionDecl) : Value → Prop
  | .callable (.closure c) => c.decl = decl
  | .callable (.classRef r) => ∃ c, s.findMethod? r "init" = some c ∧ c.decl = decl
  | _ => False

/-- Executing the instruction makes the environment for the site. -/
inductive Exec.Makes (o : Options) (i : Instr) (m : Machine) : EnvRef → Site → Prop where
  | block {span : Span} (op : i.op = .enterScope) (place : i.span = some span) :
      Makes o i m m.world.store.envs.size (.block span)
  | super {name : String} {methods : List FunctionDecl} {span : Span} {m' : Machine}
      (op : i.op = .class name methods) (place : i.span = some span) (run : execute o i m = .ok () m')
      (size : m.world.store.envs.size < m'.world.store.envs.size) :
      Makes o i m m.world.store.envs.size (.super span)
  | call {n : Nat} {callee : Value} {st : List Value} {decl : FunctionDecl} {m' : Machine}
      (op : i.op = .call n) (stack : m.stack = callee :: st)
      (enters : callee.Enters m.world.store decl) (run : execute o i m = .ok () m') :
      Makes o i m m'.env (.function decl.id)

/-- Executing the instruction, a class statement in the environment, adds the method to the class. -/
inductive Exec.Adds (i : Instr) (m : Machine) : EnvRef → ClassRef → Closure → Prop where
  | base {name : String} {methods : List FunctionDecl} {st : List Value} {r : ClassRef} {c : Closure}
      (op : i.op = .class name methods) (stack : m.stack = .bool false :: st)
      (adds : m.world.store.Adds m.env name none methods r c) : Adds i m m.env r c
  | sub {name : String} {methods : List FunctionDecl} {v : Value} {st : List Value} {r : ClassRef}
      {c : Closure} (op : i.op = .class name methods) (stack : m.stack = .bool true :: v :: st)
      (adds : m.world.store.Adds m.env name (some v) methods r c) : Adds i m m.env r c

/-- What comes about when an instruction is executed. -/
def Exec.deeds (o : Options) (i : Instr) (m : Machine) : History := ⟨Makes o i m, Adds i m⟩

variable {S : Footing} {o : Options} {i : Instr} {m : Machine} {r : Row} {rs : List Row}

namespace Machine

/-- A row without a handler asks for none. -/
theorem Runs.handlers_eq {ip : Nat} (h : m.Runs S ip r rs) (hg : r.shape.guard = none) :
    Below S m.world.store r.frame.base rs m.handlers := by
  obtain ⟨rest, hi, hb⟩ := h.below
  rw [Row.Installs, hg] at hi
  exact hi ▸ hb

/-- An instruction between two items that puts the frame into another environment. -/
theorem Poised.rescopes (h : m.Poised S i r rs) (hfree : r.shape.Free) {e : EnvRef} {w : World}
    {l : Shape} (hl : r.shapes (r.frame.ip + 1) = some l) (hlfree : l.Free)
    (hcall : l.call = r.shape.call) (hheight : l.height = r.shape.height)
    (hw : w.store.Obeys S.law) (hg : S.grows m.world.store w.store) (hchain : S.chain w.store e l.scopes)
    (howned : S.owned w.store m.globals ((e, l.scopes) :: rs.map Row.place)) :
    m.Advanced S o r { m with world := w, env := e } := by
  have hbelow := (h.runs.handlers_eq hfree.guard).grows hg
  refine ⟨⟨hw, fun v hv => S.value_grows hg (h.holds.stack v hv), h.holds.chunks, h.holds.compiles,
      S.root_grows hg h.holds.root⟩,
    ⟨{ r.goTo (r.frame.ip + 1) l with env := e }, rs, ?_⟩, Nat.le_max_left _ _, ⟨rfl, ?_⟩,
    .stays (r.frame.ip + 1) h.frames_next rfl ?_ rfl⟩
  · refine ⟨h.runs.frames, rfl, h.runs.envs, ?_, Shape.flagless hlfree.flag, howned,
      m.handlers, ?_, hbelow⟩
    · refine ⟨h.runs.top.balanced, hl, hcall.trans h.runs.top.call, ?_, hchain⟩
      show r.frame.base + l.height = m.stack.length
      rw [hheight, h.height]
    · exact Row.installs_none hlfree.guard
  · have := h.height
    rw [hfree.bare]
    show _ ≤ m.stack.length
    omega
  · intro hsome
    rw [hfree.guard] at hsome
    exact nomatch hsome

/-- An instruction between two items that takes values and declares a name. -/
theorem Poised.declares (h : m.Poised S i r rs) {k : Shape} (hk : k.Free) (pops : Nat)
    (hcall : r.shape.call = k.call) (hguard : r.shape.guard = none) (hfloor : r.shape.floor = 0)
    (hheight : r.shape.height = k.height + pops)
    (hl : r.shapes (r.frame.ip + 1) = some (k.declare name)) {w : World} (hw : w.store.Obeys S.law)
    (hg : m.world.store.Grows Reserved w.store)
    (hchain : S.chain w.store r.env (k.scopes.declare name)) (hst : st = m.stack.drop pops)
    (hscopes : r.shape.scopes = k.scopes)
    (hn : ∀ {a x}, a < m.world.store.envs.size → w.store.hasLocal a x = true →
      m.world.store.hasLocal a x = true ∨ a = m.env ∧ x = name) :
    m.Advanced S o r { m with world := w, stack := st } := by
  have hlen := h.height
  have howned := h.runs.owned
  rw [Owns, List.map_cons, Row.place, hscopes] at howned
  subst hst
  refine h.goes hl h.frames_next rfl rfl rfl (S.grows_of hg) hcall.symm (hk.guard.trans hguard.symm)
    (hk.bare.trans hfloor.symm) ?_ hchain (S.owned_declare howned hg (h.runs.env ▸ hn))
    (Shape.flagless hk.flag)
    (h.holds.update hw (S.grows_of hg) fun v hv => .inl (List.mem_of_mem_drop hv)) ⟨cutTo_drop ?_, ?_⟩
  · show r.frame.base + k.height = (m.stack.drop pops).length
    rw [List.length_drop]
    omega
  · omega
  · rw [hfloor, List.length_drop]
    omega

/-- The stack holds a callee and its arguments. -/
theorem Poised.callee {n : Nat} (h : m.Poised S ⟨.call n, place⟩ r rs) :
    ∃ v st, m.stack = v :: st ∧ n ≤ st.length := by
  obtain ⟨span, rfl⟩ := h.fits.placed
  have hm : r.shape.Moves r.shapes r.frame.ip (n + 1) 1 := h.fits
  have hlen := h.length hm.takes
  obtain ⟨v, st, hst⟩ := List.exists_cons_of_length_pos (l := m.stack) (by omega)
  rw [hst, List.length_cons] at hlen
  exact ⟨v, st, hst, by omega⟩

end Machine

namespace Exec

open Machine

variable {span : Span}

/-! ## Declarations -/

theorem declareVar_outcome (h : m.Poised S ⟨.declareVar name, span⟩ r rs) :
    m.Outcome S o r (execute o ⟨.declareVar name, span⟩ m) := by
  obtain ⟨hd, k, hk, hl, hnext⟩ := h.fits
  have hn := S.rules.named hd
  have htakes : r.shape.Takes 1 := ⟨k, hk.toCalm, hl⟩
  obtain ⟨v, st, hst⟩ := h.one htakes
  rw [execute_declareVar hst]
  split
  · exact h.fails_here htakes 1 (Nat.le_refl _) (by simp [hst]) rfl
  · have hg : m.world.store.Grows Reserved (m.world.store.define m.env name v) := .define _ _ (.inl hn) v
    have hv : v.Obeys S.law m.world.store := h.holds.stack v (by simp [hst])
    have hchain : S.chain (m.world.store.define m.env name v) r.env (k.scopes.declare name) := by
      have := h.runs.top.chain
      rw [hl] at this
      rw [h.runs.env]
      exact S.chain_declare v this hn
    exact h.declares hk 1 (by rw [hl]; rfl) (by rw [hl]; exact hk.guard) (by rw [hl]; exact hk.bare)
      (by rw [hl]; rfl) hnext (h.holds.store.define hg (hv.grows hg)) hg hchain (by simp [hst])
      (by rw [hl]; rfl) fun _ => Store.hasLocal_define

theorem function_outcome {decl : FunctionDecl} (h : m.Poised S ⟨.function decl, span⟩ r rs) :
    m.Outcome S o r (execute o ⟨.function decl, span⟩ m) := by
  obtain ⟨hd, hf, hk, hknown, hnext⟩ := h.fits
  have hn := S.rules.named hd
  have hchain : S.chain m.world.store m.env r.shape.scopes := h.runs.env ▸ h.runs.top.chain
  rw [execute_function]
  exact h.declares hk 0 rfl hk.guard hk.bare rfl hnext
    (S.obeys_function h.holds.store hchain hn hf hknown) (.define _ _ (.inl hn) _)
    (h.runs.env ▸ S.chain_declare _ hchain hn) rfl rfl fun _ => Store.hasLocal_define

/-- The store has one environment more after a class statement with a superclass. -/
theorem size_lt_of_declareClass {s t : Store} {e : EnvRef} {superclass : Option Value}
    (h : Store.declareClass e name superclass methods s = .ok () t) (hs : superclass.isSome) :
    s.envs.size < t.envs.size := by
  obtain ⟨p, q, s₁, hp, hq, rfl⟩ := Store.declareClass_eq_ok h
  have hsome := s.superclassOf_sound superclass
  rw [hp] at hsome
  cases p with
  | none => exact nomatch hsome.trans hs
  | some c =>
    rw [Store.addMethods_envs, Store.envs_size_define, Store.methodScope, Store.envs_size_define,
      Store.envs_size_newEnv, Store.openClass_envs hq]
    exact Nat.lt_succ_self _

/-- A class statement, with the stack and the superclass that the flag tells. -/
theorem class_done {k : Shape} {b : Bool} {superclass : Option Value}
    (h : m.Poised S ⟨.class name methods, span⟩ r rs) (hn : ¬ Reserved name)
    (hk : k.Free ∧ k.scopes.Plain) (hl : r.shape = (k.push b.toNat).flagged b)
    (hnext : r.shapes (r.frame.ip + 1) = some (k.declare name))
    (hms : ∀ d ∈ methods, ¬ Reserved d.name ∧ d.kind = .method
      ∧ S.rules.known d (Context.ofMethods b span (k.scopes.declare name)))
    (hb : superclass.isSome = b) (hv : ∀ v ∈ superclass, v ∈ m.stack)
    (hst : st = m.stack.drop (b.toNat + 1))
    (hmade : ∀ s, Store.declareClass m.env name superclass methods m.world.store = .ok () s →
      superclass.isSome → S.history.made m.world.store.envs.size (.super span))
    (hadded : ∀ q c, m.world.store.Adds m.env name superclass methods q c →
      S.history.added m.env q c) :
    m.Outcome S o r
      (onStore (Store.declareClass m.env name superclass methods) { m with stack := st }) := by
  rw [onStore_apply]
  have hsound := m.world.store.declareClass_sound m.env name superclass methods
  obtain ⟨hk, hplain⟩ := hk
  dsimp only
  cases hd : Store.declareClass m.env name superclass methods m.world.store with
  | error c s =>
    rw [hd] at hsound
    obtain ⟨hsound, rfl⟩ := hsound
    have hheight := h.height
    rw [hl] at hheight
    have hheight : r.frame.base + (k.height + b.toNat + 1) = m.stack.length := hheight
    have hfloor : r.shape.floor = 0 := by rw [hl]; exact hk.bare
    subst hst
    refine ⟨hsound.sound, h.holds.update h.holds.store (S.grows_of (.refl _ _)) fun v hv =>
      .inl (List.mem_of_mem_drop hv), S.keeps_of (.refl _ _), rfl, rfl, rfl, rfl, ⟨cutTo_drop ?_, ?_⟩,
      .inl rfl⟩
    · omega
    · show _ ≤ (m.stack.drop _).length
      rw [List.length_drop]
      omega
  | ok u s =>
    have hg : m.world.store.Grows Reserved s := .declareClass hn hd
    have hchain : S.chain m.world.store m.env k.scopes := by
      have := h.runs.top.chain
      rw [hl, ← h.runs.env] at this
      exact this
    have hobeys : s.Obeys S.law :=
      S.obeys_class h.holds.store hchain hplain hn (fun v hx => h.holds.stack v (hv v hx))
        (fun d hd' => hb ▸ (hms d hd').2) hd (hmade s hd) hadded
    exact h.declares hk (b.toNat + 1) (by rw [hl]; rfl) (by rw [hl]; exact hk.guard)
      (by rw [hl]; exact hk.bare) (by rw [hl]; rfl) hnext hobeys hg
      (h.runs.env ▸ S.chain_class hchain hn hd) hst (by rw [hl]; rfl) (Store.hasLocal_declareClass hd)

theorem class_outcome (h : m.Poised S ⟨.class name methods, span⟩ r rs)
    (hdeeds : (deeds o ⟨.class name methods, span⟩ m).Within S.history) :
    m.Outcome S o r (execute o ⟨.class name methods, span⟩ m) := by
  obtain ⟨hd, k, b, hk, hl, hnext, hms⟩ := h.fits
  have hn := S.rules.named hd
  have hheight := h.height
  rw [hl] at hheight
  have hheight : r.frame.base + (k.height + b.toNat + 1) = m.stack.length := hheight
  have hflag : m.stack.head? = some (.bool b) := h.runs.flag b (by rw [hl]; rfl)
  obtain ⟨x, st, hst⟩ := List.exists_cons_of_length_pos (l := m.stack) (by omega)
  rw [hst] at hflag
  cases hflag
  cases b with
  | false =>
    rw [execute_class hst]
    exact class_done h hn hk hl hnext hms rfl (nofun : ∀ v ∈ none, v ∈ m.stack) (by simp [hst])
      (fun s _ hs => nomatch hs) fun q c ha => hdeeds.added _ q c (.base rfl hst ha)
  | true =>
    rw [hst] at hheight
    obtain ⟨v, st, rfl⟩ := List.exists_cons_of_length_pos (l := st) (by
      simp only [Bool.toNat_true, List.length_cons] at hheight
      omega)
    have hrun : execute o ⟨.class name methods, span⟩ m = _ := execute_subclass hst
    rw [hrun]
    refine class_done h hn hk hl hnext hms rfl (by simp [hst]) (by simp [hst]) (fun s hd hs => ?_)
      fun q c ha => hdeeds.added _ q c (.sub rfl hst ha)
    rw [onStore_apply, hd] at hrun
    exact hdeeds.made _ _ (.super rfl rfl hrun (size_lt_of_declareClass hd hs))

/-! ## Scopes -/

theorem enterScope_outcome (h : m.Poised S ⟨.enterScope, span⟩ r rs)
    (hmade : S.history.made m.world.store.envs.size (.block span)) :
    m.Outcome S o r (execute o ⟨.enterScope, span⟩ m) := by
  obtain ⟨hk, hnext⟩ := h.fits
  have hchain := h.runs.top.chain
  rw [← h.runs.env] at hchain
  rw [execute_enterScope]
  have howned : S.owned m.world.store m.globals ((m.env, r.shape.scopes) :: rs.map Row.place) :=
    h.runs.env ▸ h.runs.owned
  exact h.rescopes hk hnext ⟨⟨hk.flag, hk.floor⟩, hk.guard, hk.bare⟩ rfl rfl (h.holds.store.newEnv _)
    (S.grows_of (.newEnv _ _)) (S.chain_enter hchain hmade) (S.owned_enter span howned)

theorem leaveScope_outcome {n : Nat} (h : m.Poised S ⟨.leaveScope n, span⟩ r rs) :
    m.Outcome S o r (execute o ⟨.leaveScope n, span⟩ m) := by
  obtain ⟨hk, hn, hnext⟩ := h.fits
  have hchain := h.runs.top.chain
  rw [← h.runs.env] at hchain
  obtain ⟨a, ha, hc⟩ := S.chain_leave hchain (Nat.le_trans hn r.shape.scopes.blocks_le_length)
  rw [execute_leaveScope ha]
  rw [h.runs.env] at ha
  exact h.rescopes hk hnext ⟨⟨hk.flag, hk.floor⟩, hk.guard, hk.bare⟩ rfl rfl h.holds.store
    (S.grows_of (.refl _ _)) hc (S.owned_leave h.runs.owned hn ha)

/-! ## Handlers -/

theorem failureBegin_outcome {message : Option String} {catchAt : Nat}
    (h : m.Poised S ⟨.failureBegin message catchAt, span⟩ r rs) :
    m.Outcome S o r (execute o ⟨.failureBegin message catchAt, span⟩ m) := by
  obtain ⟨hk, hnext⟩ := h.fits
  have hheight := h.height
  have hdepth : m.frames.length = rs.length + 1 := by rw [h.runs.frames]; simp
  have henvs : m.envs.length = rs.length := by rw [h.runs.envs]; simp
  rw [execute_failureBegin]
  refine ⟨⟨h.holds.store, h.holds.stack, h.holds.chunks, h.holds.compiles, h.holds.root⟩,
    ⟨r.goTo (r.frame.ip + 1) (r.shape.guarded r.frame.ip), rs, ?_⟩, Nat.le_max_left _ _, ⟨rfl, ?_⟩,
    .awaits _ hk.guard rfl rfl rfl ⟨rfl, rfl, rfl⟩ h.code rfl rfl rfl⟩
  · refine ⟨h.runs.frames, h.runs.env, h.runs.envs,
      ⟨h.runs.top.balanced, hnext, h.runs.top.call, hheight, h.runs.top.chain⟩,
      Shape.flagless (l := r.shape) hk.flag, h.runs.owned, m.handlers, ⟨_, rfl, ?_⟩,
      h.runs.handlers_eq hk.guard⟩
    exact ⟨h.code, hdepth, by show m.envs.length + 1 = _; rw [henvs], h.runs.env, hheight.symm⟩
  · show _ ≤ m.stack.length
    have := hk.floor
    omega

theorem failureEnd_outcome (h : m.Poised S ⟨.failureEnd, span⟩ r rs) :
    m.Outcome S o r (execute o ⟨.failureEnd, span⟩ m) := by
  obtain ⟨hg, htakes, -⟩ := h.fits
  obtain ⟨v, st, hst⟩ := h.one htakes
  obtain ⟨b, hb⟩ := Option.isSome_iff_exists.1 hg
  obtain ⟨rest, hi, -⟩ := h.runs.below
  rw [Row.Installs, hb] at hi
  obtain ⟨hd, hhs, -⟩ := hi
  have hsound := m.world.store.truth_sound v
  rw [execute_failureEnd hst hhs]
  cases ht : m.world.store.truth v with
  | ok b =>
    have hf := h.fails_here (c := .errorExpected) htakes 1 (Nat.le_refl _) (by rw [hst]) rfl
    exact ⟨rfl, ⟨hf.holds.store, hf.holds.stack, hf.holds.chunks, hf.holds.compiles, hf.holds.root⟩,
      S.keeps_of (.refl _ _), rfl, rfl, rfl, rfl, hf.low, .inr ⟨hg, by rw [hhs, List.tail_cons]⟩⟩
  | error c =>
    rw [ht] at hsound
    exact h.fails_here htakes 1 (Nat.le_refl _) (by simp [hst]) hsound

/-! ## Returns -/

/-- A return lays the result on the stack of the caller. -/
theorem return_outcome (h : m.Poised S ⟨.return, span⟩ r rs) :
    m.Outcome S o r (execute o ⟨.return, span⟩ m) := by
  obtain ⟨hcall, k, hk, hl⟩ := h.fits
  have htakes : r.shape.Takes 1 := ⟨k, hk.toCalm, hl⟩
  obtain ⟨v, st, hst⟩ := h.one htakes
  have hguard : r.shape.guard = none := by rw [hl]; exact hk.guard
  have hbare : r.shape.floor = 0 := by rw [hl]; exact hk.bare
  have hheight : r.frame.base + (k.height + 1) = st.length + 1 := by
    have := h.height
    rw [hl, hst] at this
    exact this
  -- a frame that returns is a call, so that there is a row below it
  have hne := h.runs.top.call.symm.trans hcall
  cases rs with
  | nil => exact nomatch hne
  | cons r₁ rs₁ =>
    obtain ⟨hr, hf, hlow, rest, hi, hb⟩ := h.runs.handlers_eq hguard
    have hframes : m.frames = { r.frame with ip := r.frame.ip + 1 } :: (r₁ :: rs₁).map Row.frame :=
      h.runs.frames
    have henvs : m.envs = r₁.env :: rs₁.map Row.env := h.runs.envs
    rw [execute_return hst hframes henvs]
    have hcut : (cutTo r.frame.base st).length = r.frame.base := length_cutTo (by omega)
    have hlen : (v :: cutTo r.frame.base st).length = r.frame.base + 1 := by
      rw [List.length_cons, hcut]
    refine ⟨⟨h.holds.store, fun x hx => ?_, h.holds.chunks, h.holds.compiles, h.holds.root⟩,
      ⟨r₁, rs₁, ?_⟩, ?_, ?_,
      .returns _ hguard hframes henvs rfl⟩
    · rcases List.mem_cons.1 hx with rfl | hx
      · exact h.holds.stack x (by simp [hst])
      · exact h.holds.stack x (by rw [hst]; exact List.mem_cons_of_mem _ (List.mem_of_mem_drop hx))
    · refine ⟨rfl, rfl, rfl, ?_, Shape.flagless hf, S.owned_tail h.runs.owned, rest, hi, hb⟩
      rw [hlen]
      exact hr
    · rw [hframes]
      exact Nat.le_trans (Nat.le_succ _) (Nat.le_max_left _ _)
    · rw [SameLow, hbare, Nat.add_zero, hst]
      refine ⟨?_, by rw [hlen]; omega⟩
      calc cutTo r.frame.base (v :: cutTo r.frame.base st)
          = cutTo r.frame.base (cutTo r.frame.base st) := cutTo_append [v] (Nat.le_of_eq hcut.symm)
        _ = cutTo r.frame.base st := cutTo_of_length hcut
        _ = cutTo r.frame.base (v :: st) := (cutTo_append [v] (by omega)).symm

/-! ## Calls -/

/-- The machine that has noted the chunk of a function holds what it should. -/
theorem holds_noteChunk {decl : FunctionDecl} {Γ : Context} {chunk : Chunk} (h : m.Holds S)
    (hk : S.rules.known decl Γ) (hc : functionChunk m.distances decl = .ok chunk) :
    (m.noteChunk decl.id chunk).Holds S := by
  refine ⟨h.store, h.stack, fun {other Δ found} ho hf => ?_, h.compiles, h.root⟩
  rw [noteChunk, Table.get?_insert] at hf
  split at hf
  · next hid =>
      cases hf
      exact h.compiles hk hc ho hid.symm
  · exact h.chunks ho hf

/-- Entering a function puts a row for it on top, in a new environment. -/
theorem entered_advanced (h : m.Poised S i r rs) {pops : Nat}
    (hm : r.shape.Moves r.shapes r.frame.ip pops 1) {w : World} (hst : st = m.stack.drop pops)
    (hw : w.store.Obeys S.law) (hg : m.world.store.Keeps Reserved w.store) {c : Closure}
    {Γ : Context} (hchain : S.chain w.store c.env Γ) {args : List Value}
    (hargs : ∀ v ∈ args, v ∈ m.stack) (hlen : c.decl.params.length = args.length)
    (hmade : S.history.made w.store.envs.size (.function c.decl.id))
    (hdepth : m.frames.length ≤ o.maxCallDepth) {chunk : Chunk} {chunks : Table Nat Chunk}
    (hfit : S.Fitting chunk (S.start c.decl Γ)) (hchunks : { m with chunks := chunks }.Holds S) :
    m.Advanced S o r ({ m with world := w, stack := st, chunks := chunks }.entered c args place chunk) := by
  have hgs : m.world.store.Keeps Reserved (w.store.callStore c args) := hg.trans (.callStore _ _ _)
  have hargs' : ∀ v ∈ args, v.Obeys S.law w.store := fun v hv =>
    (h.holds.stack v (hargs v hv)).grows hg.toGrows
  obtain ⟨k, hk, hl, hnext⟩ := hm
  obtain ⟨L, hL, hbal⟩ := hfit
  have hheight : r.frame.base + (k.height + pops) = m.stack.length := by
    rw [← h.height, hl]
    rfl
  have hlen' : st.length = r.frame.base + k.height := by
    rw [hst, List.length_drop]
    omega
  have hcall : S.chain (w.store.callStore c args) w.store.envs.size (S.start c.decl Γ) :=
    S.chain_call hchain hmade hlen
  have hbelow : Below S (w.store.callStore c args) st.length
      (r.goTo (r.frame.ip + 1) (k.push 1) :: rs) m.handlers := by
    have hmoved : ({ m with
        world := { w with store := w.store.callStore c args }, stack := .nil :: st } : Machine).Runs S
        (r.frame.ip + 1) (r.goTo (r.frame.ip + 1) (k.push 1)) rs :=
      h.runs.moved hk hl hnext (S.keeps_of hgs) (by
        rw [List.length_cons, hst, List.length_drop]
        omega)
    exact ⟨hmoved.top, hk.flag, Nat.lt_succ_of_le hk.floor, hmoved.below⟩
  refine ⟨⟨hw.callStore c hargs', fun v hv => ?_, hchunks.chunks, hchunks.compiles,
      S.root_grows (S.grows_of hgs.toGrows) h.holds.root⟩,
    ⟨{ frame := { chunk, ip := 0, name := c.decl.name, span := place, base := st.length },
       env := w.store.envs.size, shapes := L, shape := { scopes := S.start c.decl Γ, call := true } },
      r.goTo (r.frame.ip + 1) (k.push 1) :: rs, ?_⟩, ?_, ?_, .calls _ rfl rfl rfl⟩
  · rw [hst] at hv
    exact (h.holds.stack v (List.mem_of_mem_drop hv)).grows hgs.toGrows
  · refine ⟨?_, rfl, ?_, ⟨hbal, hL, rfl, rfl, hcall⟩, Shape.flagless rfl, ?_, m.handlers,
      Row.installs_none rfl, hbelow⟩
    · show _ :: m.frames = _
      rw [h.runs.frames]
      rfl
    · show m.env :: m.envs = _
      rw [h.runs.env, h.runs.envs]
      rfl
    · have howned := S.owned_call c args Γ (S.owned_keeps (S.keeps_of hg) h.runs.owned)
      rw [List.map_cons, Row.place, hl] at howned
      exact howned
  · show m.frames.length + 1 ≤ _
    exact Nat.le_trans (Nat.succ_le_succ hdepth) (Nat.le_max_right _ _)
  · have hfloor : r.shape.floor = k.floor := by rw [hl]; rfl
    have := hk.floor
    rw [SameLow, hfloor]
    refine ⟨?_, ?_⟩
    · show cutTo _ st = _
      rw [hst]
      exact cutTo_drop (by omega)
    · show _ ≤ st.length
      omega

/-- A call enters a chunk that fits its declaration. -/
theorem enter_outcome (h : m.Poised S i r rs) {pops : Nat}
    (hm : r.shape.Moves r.shapes r.frame.ip pops 1) {w : World} (hst : st = m.stack.drop pops)
    (hw : w.store.Obeys S.law) (hg : m.world.store.Keeps Reserved w.store) {c : Closure}
    (hc : S.law.value w.store (.callable (.closure c))) {args : List Value}
    (hargs : ∀ v ∈ args, v ∈ m.stack) (hlen : c.decl.params.length = args.length)
    (hmade : ∀ m', enter o c args place { m with world := w, stack := st } = .ok () m' →
      S.history.made m'.env (.function c.decl.id)) :
    m.Outcome S o r (enter o c args place { m with world := w, stack := st }) := by
  obtain ⟨Γ, hknown, hchain⟩ := S.closure hc
  have heq : enter o c args place { m with world := w, stack := st } = _ := enter_apply
  rw [heq] at hmade ⊢
  split
  · exact h.fails hm.takes pops (Nat.le_refl _) hst rfl hw (S.keeps_of hg)
  · next hdepth =>
      rw [if_neg hdepth] at hmade
      have hdepth : m.frames.length ≤ o.maxCallDepth := Nat.le_of_not_lt hdepth
      dsimp only at hmade ⊢
      split
      · next chunk hchunk =>
          rw [hchunk] at hmade
          exact entered_advanced h hm hst hw hg hchain hargs hlen (hmade _ rfl) hdepth
            (h.holds.chunks hknown hchunk) h.holds
      · next hnone =>
          rw [hnone] at hmade
          have hsound : Yields (functionChunk m.distances c.decl) _ _ := functionChunk_from (O := .all) trivial
          split
          · next f hf =>
              rw [hf] at hsound
              exact h.fails hm.takes pops (Nat.le_refl _) hst hsound.sound hw (S.keeps_of hg)
          · next chunk hf =>
              dsimp only at hmade
              rw [hf] at hmade
              exact entered_advanced h hm hst hw hg hchain hargs hlen (hmade _ rfl) hdepth
                (h.holds.compiles hknown hf hknown rfl) (holds_noteChunk h.holds hknown hf)

/-- A call of a value, by what the value is. -/
theorem call_outcome (ho : S.Bears o) {n : Nat} (h : m.Poised S ⟨.call n, span⟩ r rs)
    (hdeeds : (deeds o ⟨.call n, span⟩ m).Within S.history) :
    m.Outcome S o r (execute o ⟨.call n, span⟩ m) := by
  have hm : r.shape.Moves r.shapes r.frame.ip (n + 1) 1 := h.fits
  obtain ⟨v, st, hst, hn⟩ := h.callee
  have hdrop : st.drop n = m.stack.drop (n + 1) := by rw [hst, List.drop_succ_cons]
  have hargs : ∀ x ∈ (st.take n).reverse, x ∈ m.stack := fun x hx => by
    rw [hst]
    exact List.mem_cons_of_mem _ (List.mem_of_mem_take (List.mem_reverse.1 hx))
  have hrun : execute o ⟨.call n, span⟩ m = _ := execute_call hst hn
  -- a call that enters a function makes the environment of the function
  have hmade : ∀ decl, v.Enters m.world.store decl → ∀ m',
      call o v (st.take n).reverse span { m with stack := st.drop n } = .ok () m' →
      S.history.made m'.env (.function decl.id) := fun decl hd m' hm' =>
    hdeeds.made _ _ (.call rfl hst hd (hrun.trans hm'))
  rw [hrun]
  cases v with
  | callable c =>
    cases c with
    | native f =>
      have hkeeps := ho f h.holds.store fun x hx => h.holds.stack x (hargs x hx)
      rw [native_apply]
      dsimp only
      split
      · next x w hx =>
          rw [hx] at hkeeps
          exact h.moves [x] hm (by rw [hdrop]; rfl) hkeeps.2.1 hkeeps.2.2 fun y hy =>
            .inr (List.mem_singleton.1 hy ▸ hkeeps.1)
      · next cause w hx =>
          rw [hx] at hkeeps
          exact h.fails hm.takes (n + 1) (Nat.le_refl _) hdrop hkeeps.1 hkeeps.2.1 hkeeps.2.2
    | closure c =>
      have harity := m.world.store.checkArity_sound (.closure c) (st.take n).reverse.length
      have hc := h.holds.stack (.callable (.closure c)) (by rw [hst]; exact List.mem_cons_self)
      have hmade := hmade c.decl rfl
      rw [call_closure] at hmade ⊢
      dsimp only at hmade ⊢
      cases ha : m.world.store.checkArity (.closure c) (st.take n).reverse.length with
      | error cause =>
        rw [ha] at harity
        exact h.fails_here hm.takes (n + 1) (Nat.le_refl _) hdrop harity
      | ok u =>
        rw [ha] at harity hmade
        exact enter_outcome h hm hdrop h.holds.store (.refl _ _) hc hargs (harity _ rfl) hmade
    | classRef q =>
      have harity := m.world.store.checkArity_sound (.classRef q) (st.take n).reverse.length
      have hnew := h.holds.store.newInstance q
      rw [call_class] at hmade ⊢
      dsimp only at hmade ⊢
      cases ha : m.world.store.checkArity (.classRef q) (st.take n).reverse.length with
      | error cause =>
        rw [ha] at harity
        exact h.fails_here hm.takes (n + 1) (Nat.le_refl _) hdrop harity
      | ok u =>
        rw [ha] at harity hmade
        dsimp only at hmade ⊢
        cases hi : (m.world.store.newInstance q).2.findMethod? q "init" with
        | none =>
          refine h.moves [.object m.world.store.instances.size] hm (by rw [hdrop]; rfl) hnew
            (S.keeps_of (.of_eq rfl rfl)) fun y hy => .inr ?_
          rw [List.mem_singleton.1 hy]
          exact S.law.inert trivial
        | some init =>
          rw [hi] at hmade
          obtain ⟨r, hmethod⟩ := hnew.findMethod? hi
          have hi' : m.world.store.findMethod? q "init" = some init := by
            rw [← hi, Store.findMethod?_newInstance]
          have hlen : init.decl.params.length = (st.take n).reverse.length :=
            Store.length_params_init ha hi
          have hg : m.world.store.Keeps Reserved (m.world.store.newInstance q).2 :=
            .of_eq rfl rfl
          exact enter_outcome h hm hdrop (hnew.bind init _) (hg.trans (.bind _ init _))
            (S.law.value_bind _ hmethod) hargs hlen
            (hmade init.decl ⟨init, hi', rfl⟩)
  | nil | bool | number | string | list | object =>
    rw [call_other fun c => Value.noConfusion]
    exact h.fails_here hm.takes (n + 1) (Nat.le_refl _) hdrop rfl

/-- What an instruction of a balanced chunk does to the rows of the machine. -/
theorem execute_outcome (ho : S.Bears o) (h : m.Poised S i r rs)
    (hdeeds : (deeds o i m).Within S.history) : m.Outcome S o r (execute o i m) := by
  obtain ⟨op, place⟩ := i
  obtain ⟨span, rfl⟩ := h.fits.placed
  cases op with
  | constant v => exact constant_outcome h
  | pop => exact pop_outcome h
  | declareVar name => exact declareVar_outcome h
  | function decl => exact function_outcome h
  | «class» name methods => exact class_outcome h hdeeds
  | lookup name depth => exact lookup_outcome h
  | assign name depth => exact assign_outcome h
  | getField name => exact getField_outcome h
  | setField name => exact setField_outcome h
  | getSuper method depth => exact getSuper_outcome h
  | unary op => exact unary_outcome h
  | binary op => exact binary_outcome h
  | logical op => exact logical_outcome h
  | jump target => exact jump_outcome h
  | jumpIfFalse target => exact jumpIfFalse_outcome h
  | repeatTest target => exact repeatTest_outcome h
  | enterScope => exact enterScope_outcome h (hdeeds.made _ _ (.block rfl rfl))
  | leaveScope n => exact leaveScope_outcome h
  | call n => exact call_outcome ho h hdeeds
  | «return» => exact return_outcome h
  | assert message => exact assert_outcome h
  | failureBegin message catchAt => exact failureBegin_outcome h
  | failureEnd => exact failureEnd_outcome h

end Exec

end Eleu

import Eleu.Proofs.Fresh
import Eleu.Proofs.Machine.FaultFree
import Eleu.Proofs.Scope.Uses
import Eleu.Proofs.Walker.Sound

/-! # Distances are right at run time

    A fresh executor runs a source text once. Whenever it uses a reference that the resolver has
    given a distance, the environments up to that distance are the ones made, earlier in the
    same run, for the scopes around the reference (`distances_right`). Both executors are judged
    in the exact setting of the program, with the history of the run. -/

namespace Eleu

variable {use : Use} {H : History}

variable {o : Options} {D : List FunctionDecl} {T : List Reference} {d : Distances} {new : Prop}

/-! ## The machine -/

namespace Machine

/-- The states that a machine comes to while it executes a program from `m₀` on. -/
inductive Execution (o : Options) (m₀ : Machine) : Machine → Prop where
  | start : Execution o m₀ m₀
  | step {m : Machine} (h : Execution o m₀ m) : Execution o m₀ (m.step o).2
  /-- The host was asked whether to stop. -/
  | polled {m : Machine} (h : Execution o m₀ m) :
      Execution o m₀ { m with world := (m.world.poll o).2 }

/-- The environment was made for the site while the machine came from `m₀` on. -/
def Made (o : Options) (m₀ : Machine) (e : EnvRef) (site : Site) : Prop :=
  ∃ m, Execution o m₀ m ∧ m.Makes o e site

/-- A class statement in the environment has added the method to the class while the machine came from
    `m₀` on. -/
def Added (o : Options) (m₀ : Machine) (e : EnvRef) (r : ClassRef) (c : Closure) : Prop :=
  ∃ m, Execution o m₀ m ∧ m.Adds o e r c

/-- What has come about while the machine came from `m₀` on. -/
def history (o : Options) (m₀ : Machine) : History := ⟨m₀.Made o, m₀.Added o⟩

theorem Execution.after {m₀ m : Machine} (h : Execution o m₀ m) (k : Nat) :
    Execution o m₀ (m.after o k) := by
  induction k generalizing m with
  | zero => exact h
  | succ k ih => exact ih h.step

/-- The machine is about to use a variable that is `n` scopes out. -/
inductive Uses (m : Machine) : Use → String → Nat → Option Span → Prop where
  | lookup (frames : m.frames = frame :: rest)
      (next : frame.chunk.instr? frame.ip = some ⟨.lookup name (some n), span⟩) :
      Uses m .read name n span
  | assign (frames : m.frames = frame :: rest)
      (next : frame.chunk.instr? frame.ip = some ⟨.assign name (some n), span⟩) :
      Uses m .write name n span
  | getSuper (frames : m.frames = frame :: rest)
      (next : frame.chunk.instr? frame.ip = some ⟨.getSuper method n, span⟩) :
      Uses m .super "super" n span

variable {m m₀ : Machine} {S : Setting}

theorem Good.execution (ho : o.TameHost) (hH : (m₀.history o).Within S.history)
    (h₀ : m₀.Good S.footing o) (h : Execution o m₀ m) : m.Good S.footing o := by
  induction h with
  | start => exact h₀
  | step h ih =>
    exact ih.step (Setting.bears ho) ⟨fun e site hm => hH.made e site ⟨_, h, hm⟩,
      fun e r c ha => hH.added e r c ⟨_, h, ha⟩⟩
  | polled h ih => exact ih.inJournal (World.store_poll _ o)

/-- A use of a variable has a place, and stands at the context of the frame. -/
theorem Good.uses (h : m.Good S.footing o) {name : String} {n : Nat} {place : Option Span}
    (hu : m.Uses use name n place) :
    ∃ Γ, Chain S.history m.world.store m.env Γ
      ∧ ((∃ p ident span, place = some span ∧ (ident.name = name ∨ use = .super ∧ name = "super")
            ∧ S.rules.allow use ⟨ident, span, Γ, p⟩ (some n))
          ∨ use = .read ∧ name = "this" ∧ S.rules.returns Γ n) := by
  rcases h.rows with ⟨hnil, -⟩ | ⟨r, rs, hruns⟩
  · cases hu with
    | lookup frames next | assign frames next | getSuper frames next =>
      exact nomatch hnil.symm.trans frames
  · refine ⟨r.shape.scopes, hruns.env ▸ hruns.top.chain, ?_⟩
    have hframes : m.frames = r.frame :: rs.map Row.frame := hruns.frames
    cases hu with
    | lookup frames next =>
      cases frames.symm.trans hframes
      have hfits := hruns.top.balanced.fits_at hruns.top.shape next
      obtain ⟨span, rfl⟩ := hfits.placed
      rcases hfits.1 with ⟨p, ident, hname, hread⟩ | ⟨k, hname, hk, hret⟩
      · exact .inl ⟨p, ident, span, rfl, .inl hname, hread⟩
      · cases hk
        exact .inr ⟨rfl, hname, hret⟩
    | assign frames next =>
      cases frames.symm.trans hframes
      have hfits := hruns.top.balanced.fits_at hruns.top.shape next
      obtain ⟨span, rfl⟩ := hfits.placed
      obtain ⟨-, ⟨p, ident, hname, hwrite⟩, -⟩ := hfits
      exact .inl ⟨p, ident, span, rfl, .inl hname, hwrite⟩
    | @getSuper _ _ method _ _ frames next =>
      cases frames.symm.trans hframes
      have hfits := hruns.top.balanced.fits_at hruns.top.shape next
      obtain ⟨span, rfl⟩ := hfits.placed
      obtain ⟨⟨p, ident, hsuper⟩, -⟩ := hfits
      exact .inl ⟨p, ident, span, rfl, .inr ⟨rfl, rfl⟩, hsuper⟩

end Machine

/-! ## The walker -/

namespace Visit

/-- The environment was made for the site while the walker was busy with the visit `v₀`. -/
def Made (o : Options) (v₀ : Visit) (e : EnvRef) (site : Site) : Prop :=
  ∃ v, v₀.Leads o v ∧ v.Makes o e site

/-- A class statement in the environment has added the method to the class while the walker was busy
    with the visit `v₀`. -/
def Added (o : Options) (v₀ : Visit) (e : EnvRef) (r : ClassRef) (c : Closure) : Prop :=
  ∃ v, v₀.Leads o v ∧ v.Adds e r c

/-- What has come about while the walker was busy with the visit `v₀`. -/
def history (o : Options) (v₀ : Visit) : History := ⟨v₀.Made o, v₀.Added o⟩

/-- In the course of the visit, the walker uses a variable in the given state. -/
inductive Uses (o : Options) : Visit → Use → Ident → Span → Walker → Prop where
  | name : Uses o ⟨n + 1, .expr (.name ident span), w⟩ .read ident span w
  | this : Uses o ⟨n + 1, .expr (.this ident span), w⟩ .read ident span w
  | superclass :
      Uses o ⟨n + 1, .statement (.class className (some ident) methods span), w⟩ .read ident span w
  | assign (evaluated : Walk.expr o n value w = .ok x w') :
      Uses o ⟨n + 1, .expr (.assign ident value span), w⟩ .write ident span w'
  | super : Uses o ⟨n + 1, .expr (.super ident method span), w⟩ .super ident span w

theorem making_history (v₀ : Visit) : v₀.Making (.exact D T d (v₀.history o) new) o :=
  fun v hl => ⟨fun _ _ hm => ⟨v, hl, hm⟩, fun _ _ _ ha => ⟨v, hl, ha⟩⟩

variable {v : Visit} {S : Setting}

/-- A use of a variable stands at the context of the visit. -/
theorem Placed.uses (ho : o.TameHost) (hp : v.Placed S) (hm : v.Making S o) {ident : Ident}
    {span : Span} {w : Walker} (hu : v.Uses o use ident span w) :
    ∃ p Γ depth, Chain S.history w.world.store w.env Γ
      ∧ S.rules.allow use ⟨ident, span, Γ, p⟩ depth := by
  cases hu with
  | name =>
    obtain ⟨p, Γ, hf, hc⟩ := hp.task
    exact ⟨p, Γ, _, hc, hf⟩
  | this =>
    obtain ⟨p, Γ, hf, hc⟩ := hp.task
    exact ⟨p, Γ, _, hc, hf⟩
  | superclass =>
    obtain ⟨role, loop, Γ, hf, hc⟩ := hp.task
    exact ⟨none, Γ, _, hc, hf.2.1.2 _ rfl⟩
  | assign evaluated =>
    obtain ⟨p, Γ, hf, hc⟩ := hp.task
    obtain ⟨hk, -, hc'⟩ := hp.next ho (hm.calls .assign) hf.2.1 hc evaluated
    exact ⟨p, Γ, _, hk.env ▸ hc', hf.2.2⟩
  | super =>
    obtain ⟨p, Γ, hf, hc⟩ := hp.task
    exact ⟨p, Γ, _, hc, hf⟩

end Visit

/-! ## Runs of a resolved program -/

/-- The exact setting gives every function a chunk that is right for it. -/
theorem Setting.exact_compiles (hids : IdsTell D) : (Setting.exact D T d H new).Compiles d := by
  intro decl other Γ Δ chunk hk hc hk' hid
  obtain rfl : other = decl := hids _ (exact_mem hk') _ (exact_mem hk) hid
  exact balanced_function (Rules.stable_exact D T d) hc (exact_follows hk') (exact_returns hk')

theorem Setting.exact_covers : (Setting.exact D T d H new).Covers d :=
  fun hk => ⟨_, exact_follows hk⟩

/-- What the exact rules say of a reference that is used. -/
theorem Rules.exact_allow {r : Reference} {depth : Option Nat}
    (h : (Rules.exact D T d).allow use r depth) :
    depth = d.get? r.ident.id ∧ (Rules.resolved D T).allow use r depth := by
  cases use <;> exact h

/-- The machine at the start of a resolved program is good in the exact setting. -/
theorem Machine.Good.start_exact {ns : List HostNative} {items : List Item}
    (hr : resolve items = .ok d) (hids : IdsTell D)
    (hf : itemsFollow (Rules.exact D T (({} : Distances).union d) new) (({} : Distances).union d) none
      false [] items) :
    (Machine.beginning ns items).Good (Setting.exact D T (({} : Distances).union d) H new).footing o := by
  obtain ⟨hobeys, hroot⟩ := Store.ready_hosted
    (L := (Setting.exact D T (({} : Distances).union d) H new).law) ns
  have hcompiles : (Setting.exact D T (({} : Distances).union d) H new).Compiles
      (({} : Distances).union d) := Setting.exact_compiles hids
  rw [Machine.beginning, Machine.hosted_eq]
  unfold Machine.start
  rw [hr]
  dsimp only
  cases hc : programChunk (({} : Distances).union d) "script" items with
  | error f =>
    exact ⟨⟨hobeys, fun _ h => (nomatch h), fun _ h => (nomatch h), hcompiles, hroot⟩,
      .inl ⟨rfl, rfl⟩, Nat.zero_le _⟩
  | ok chunk =>
    obtain ⟨L, hL, hb⟩ := balanced_program (Rules.stable_exact D T _) hc hf
    exact Good.started (m := { world := { store := .hosted ns }, globals := 0, env := 0 })
      hobeys hroot (fun _ h => nomatch h) hcompiles hL hb

/-- The walker at the start of a resolved program has its place in the exact setting. -/
theorem Visit.Placed.program_exact {ns : List HostNative} {items : List Item} (fuel : Nat)
    (hf : itemsFollow (Rules.exact D T (({} : Distances).union d) new) (({} : Distances).union d) none
      false [] items) :
    Visit.Placed (.exact D T (({} : Distances).union d) H new)
      ⟨fuel, .program items, .beginning ns d⟩ := by
  obtain ⟨hobeys, -⟩ := Store.ready_hosted
    (L := (Setting.exact D T (({} : Distances).union d) H new).law) ns
  rw [Walker.beginning_eq]
  exact ⟨Setting.exact_covers, hobeys, [], hf, trivial⟩

/-- A use of one of the references `T` from the environment `e` on is right: up to its distance `n`,
    the environments are instances of the scopes around it, and it finds what it needs. -/
structure Reference.Right (T : List Reference) (made : EnvRef → Site → Prop) (s : Store)
    (e : EnvRef) (use : Use) (n : Nat) (r : Reference) : Prop where
  listed : r ∈ T
  instances : r.context.Instances made s e n
  finds : use.Finds s e r n

section Runs

variable {e : Distances}

/-- The walker uses references with the right distances. -/
theorem Visit.uses_right (ho : o.TameHost) {v₀ v : Visit} (hsame : ∀ id, d.get? id = e.get? id)
    (hp₀ : v₀.Placed (.exact D T d (v₀.history o))) (hl : v₀.Leads o v) {ident : Ident}
    {span : Span} {w : Walker} {n : Nat} (hu : v.Uses o use ident span w)
    (hn : e.get? ident.id = some n) :
    ∃ r : Reference, r.ident = ident ∧ r.span = span
      ∧ r.Right T (v₀.Made o) w.world.store w.env use n := by
  have hm₀ : v₀.Making (.exact D T d (v₀.history o)) o := making_history v₀
  have hm : v.Making (.exact D T d (v₀.history o)) o := fun v' hl' => hm₀ v' (hl.trans hl')
  obtain ⟨p, Γ, depth, hc, hallow⟩ := (hp₀.leads ho hm₀ hl).uses ho hm hu
  obtain ⟨hdepth, hallow⟩ := Rules.exact_allow hallow
  obtain rfl : depth = some n := by rw [hdepth, hsame, hn]
  obtain ⟨hmem, hinstances, hfinds⟩ := Chain.uses_right hallow hc
  exact ⟨_, rfl, rfl, hmem, hinstances, hfinds⟩

/-- The machine uses references with the right distances, and initialisers return their instances. -/
theorem Machine.uses_right (ho : o.TameHost) {m₀ m : Machine} (hsame : ∀ id, d.get? id = e.get? id)
    (hg₀ : m₀.Good (Setting.exact D T d (m₀.history o)).footing o) (hx : m₀.Execution o m)
    {name : String} {n : Nat} {place : Option Span} (hu : m.Uses use name n place) :
    (∃ r : Reference, r.ident.name = name ∧ place = some r.span ∧ e.get? r.ident.id = some n
        ∧ r.Right T (m₀.Made o) m.world.store m.env use n)
      ∨ use = .read ∧ name = "this" ∧ ∃ Γ : Context, Γ.distance? "this" = some n
          ∧ Γ.Instances (m₀.Made o) m.world.store m.env n
          ∧ ∃ x, m.world.store.getAt m.env "this" n = .ok x := by
  obtain ⟨Γ, hc, huse⟩ := (hg₀.execution ho (.refl _) hx).uses hu
  rcases huse with ⟨p, ident, span, rfl, hname, hallow⟩ | ⟨rfl, rfl, hret⟩
  · obtain ⟨hdepth, hallow⟩ := Rules.exact_allow hallow
    obtain ⟨hmem, hinstances, hfinds⟩ := Chain.uses_right hallow hc
    refine .inl ⟨_, ?_, rfl, by rw [← hsame, ← hdepth], hmem, hinstances, hfinds⟩
    rcases hname with hname | ⟨rfl, rfl⟩
    · exact hname
    · exact hallow.2.1
  · obtain ⟨a, x, ha, hx'⟩ := hc.getAt_distance hret
    obtain ⟨scope, hscope, -⟩ := Context.mem_of_distance hret
    exact .inr ⟨rfl, rfl, Γ, hret, hc.instances hscope, x, Store.getAt_of_local ha hx'⟩

end Runs

/-- Whenever a fresh executor that runs a source text uses a reference with a distance, the distance is
    right: the environments up to it are instances of the innermost scopes around the reference,
    and were made in this run; what is read is found, and what is assigned to is found unless the
    assignment stands in the initialiser of the variable. The machine reads `this` also where an
    initialiser returns its instance. -/
theorem distances_right (o : Options) (ho : o.TameHost) (ns : List HostNative)
    {recovery : Recovery} {unit : Nat} {file source : String} {items : List Item}
    (parsed : parseText recovery unit file source = .ok items) (resolved : resolve items = .ok d) :
    (∀ fuel v, Visit.Leads o ⟨fuel, .program items, .beginning ns d⟩ v →
      ∀ use ident span w n, v.Uses o use ident span w → d.get? ident.id = some n →
        ∃ r : Reference, r.ident = ident ∧ r.span = span
          ∧ r.Right (itemsReferences [] items)
              (Visit.Made o ⟨fuel, .program items, .beginning ns d⟩) w.world.store w.env use n)
      ∧ ∀ m, (Machine.beginning ns items).Execution o m →
        ∀ use name n place, m.Uses use name n place →
          (∃ r : Reference, r.ident.name = name ∧ place = some r.span ∧ d.get? r.ident.id = some n
            ∧ r.Right (itemsReferences [] items) ((Machine.beginning ns items).Made o)
                m.world.store m.env use n)
          ∨ use = .read ∧ name = "this" ∧ ∃ Γ : Context, Γ.distance? "this" = some n
              ∧ Γ.Instances ((Machine.beginning ns items).Made o) m.world.store m.env n
              ∧ ∃ x, m.world.store.getAt m.env "this" n = .ok x := by
  obtain ⟨hids, hexact⟩ := parseText_exact parsed resolved
  have hsame : ∀ id, (({} : Distances).union d).get? id = d.get? id := by simp [union_resolved resolved]
  constructor
  · intro fuel v hl use ident span w n hu hn
    exact Visit.uses_right ho hsame (.program_exact fuel hexact) hl hu hn
  · intro m hx use name n place hu
    exact Machine.uses_right ho hsame (.start_exact resolved hids hexact) hx hu

/-- Whether an instruction looks up the variable at the distance. -/
def Op.looksUp (name : String) (distance : Nat) : Op → Bool
  | .lookup n (some d) => n == name && d == distance
  | _ => false

theorem Op.eq_of_looksUp {name : String} {distance : Nat} {op : Op}
    (h : op.looksUp name distance = true) : op = .lookup name (some distance) := by
  unfold Op.looksUp at h
  split at h
  · simp only [Bool.and_eq_true, beq_iff_eq] at h
    rw [h.1, h.2]
  · cases h

/-- A function that has outlived the call around it reads a variable of that call. -/
theorem exists_use : ∃ (items : List Item) (d : Distances) (m : Machine) (place : Option Span),
    parseText .resume 0 "" "fun f() { var x = 1; fun g() { return x; } return g; } f()();" = .ok items
      ∧ resolve items = .ok d ∧ (Machine.beginning [] items).Execution {} m
      ∧ m.Uses .read "x" 1 place := by
  have hcheck : ((parseText .resume 0 ""
        "fun f() { var x = 1; fun g() { return x; } return g; } f()();").toOption.any fun items =>
      (resolve items).toOption.any fun _ =>
        ((Machine.beginning [] items).after {} 9).frames.head?.any fun frame =>
          (frame.chunk.instr? frame.ip).any fun i => i.op.looksUp "x" 1) = true := by
    decide +kernel
  obtain ⟨items, hparsed, hcheck⟩ := Outcome.any_toOption.1 hcheck
  obtain ⟨d, hresolved, hcheck⟩ := Outcome.any_toOption.1 hcheck
  obtain ⟨frame, hframe, hcheck⟩ := (Option.any_eq_true _ _).1 hcheck
  obtain ⟨⟨op, span⟩, hnext, hcheck⟩ := (Option.any_eq_true _ _).1 hcheck
  obtain ⟨rest, hframes⟩ := List.head?_eq_some_iff.1 hframe
  obtain rfl := Op.eq_of_looksUp hcheck
  exact ⟨items, d, _, span, hparsed, hresolved, .after .start 9, .lookup hframes hnext⟩

theorem distances_right_closure : ∃ (items : List Item) (d : Distances) (m : Machine) (r : Reference),
    parseText .resume 0 "" "fun f() { var x = 1; fun g() { return x; } return g; } f()();" = .ok items
      ∧ resolve items = .ok d ∧ (Machine.beginning [] items).Execution {} m
      ∧ r.ident.name = "x" ∧ d.get? r.ident.id = some 1
      ∧ r.Right (itemsReferences [] items) ((Machine.beginning [] items).Made {}) m.world.store m.env
          .read 1 := by
  obtain ⟨items, d, m, span, hparsed, hresolved, hexec, huse⟩ := exists_use
  have hright := (distances_right {} tameHost_default [] hparsed hresolved).2 m hexec _ _ _ _ huse
  rcases hright with ⟨r, hname, -, hd, hr⟩ | ⟨-, hname, -⟩
  · exact ⟨items, d, m, r, hparsed, hresolved, hexec, hname, hd, hr⟩
  · exact absurd hname (by decide)

end Eleu

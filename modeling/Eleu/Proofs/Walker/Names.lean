import Eleu.Proofs.Declarations
import Eleu.Proofs.Walker.Sound

/-! # The names of local environments

    A task adds to the environment that it is done in only the name that it declares there itself
    (`Visit.adds`): what it calls runs in scopes of its own, and what branches and loops repeat
    declares nothing. A visit is `Clear` if, outside the global environment, the names that are there
    are among those that stand before its task in the same scope. The visits that a clear visit
    calls are clear (`Visit.Clear.calls`), so that a declaration that scope analysis lets pass finds
    its name unbound (`Visit.Clear.declares`). -/

namespace Eleu

/-- The task declares nothing in the scope that it is done in but the name. -/
def Task.Adds (N : Option String) : Task → Prop
  | .item i | .statement i => ∀ x ∈ i.declared?, x ∈ N
  | .items _ | .program _ => False
  | _ => True

/-- The visit declares the name, and comes to it in the given state. -/
inductive Visit.Declares (o : Options) : Visit → String → Walker → Prop where
  | var (evaluated : Walk.initialiser o n init w = .ok x w') :
      Declares o ⟨n + 1, .statement (.var name init span), w⟩ name w'
  | function : Declares o ⟨n + 1, .statement (.function decl span), w⟩ decl.name w
  | «class» : Declares o ⟨n + 1, .statement (.class name parent methods span), w⟩ name w

/-- From the first state to the second, the environment `a`, if it is inside another, has got no name
    but the given one. -/
structure Walker.Adds (a : EnvRef) (N : Option String) (w w' : Walker) : Prop where
  env : w'.env = w.env
  size : w.world.store.envs.size ≤ w'.world.store.envs.size
  parent : ∀ {p}, (w.world.store.env a).parent = some p → (w'.world.store.env a).parent = some p
  names : ∀ {x p}, (w.world.store.env a).parent = some p → w'.world.store.hasLocal a x = true →
    w.world.store.hasLocal a x = true ∨ x ∈ N

variable {o : Options} {S : Setting} {a : EnvRef} {N : Option String} {n : Nat} {t t' : Task}
  {w w' : Walker}

namespace Walker.Adds

theorem of_keeps {K : String → Prop} (he : w'.env = w.env)
    (h : w.world.store.Keeps K w'.world.store) : Adds a N w w' :=
  ⟨he, h.size, fun hp => (h.parent a (Store.parent_lt_size hp)).trans hp,
    fun hp hx => .inl (h.names hp hx)⟩

theorem calm (ho : o.TameHost) : Calm o (Adds a N) where
  refl w := ⟨rfl, Nat.le_refl _, id, fun _ hx => .inl hx⟩
  trans h h' := ⟨h'.env.trans h.env, Nat.le_trans h.size h'.size, fun hp => h'.parent (h.parent hp),
    fun hp hx => (h'.names (h.parent hp) hx).elim (h.names hp) .inr⟩
  keep w _ h := of_keeps rfl h
  native w f args := of_keeps rfl (NativeM.call_spares ho f args w.world).toKeeps
  poll w := of_keeps (K := fun _ => False) rfl (by rw [World.store_poll]; exact .refl _ _)
  count w n := ⟨rfl, Nat.le_refl _, id, fun _ hx => .inl hx⟩
  trace w t := ⟨rfl, Nat.le_refl _, id, fun _ hx => .inl hx⟩
  scope e h := ⟨rfl, h.size, h.parent, h.names⟩
  call c h := ⟨h.env, h.size, h.parent, h.names⟩

end Walker.Adds

namespace Visit

/-- The visit has its place, and adds no name to the environment `a` but the given one. -/
structure Adding (S : Setting) (o : Options) (a : EnvRef) (N : Option String) (v : Visit) : Prop where
  placed : v.Placed S
  making : v.Making S o
  older : a < v.state.world.store.envs.size
  adds : v.state.env = a → v.task.Adds N

theorem Adding.calls (ho : o.TameHost) (h : Adding S o a N ⟨n + 1, t, w⟩)
    (hc : Calls o ⟨n + 1, t, w⟩ ⟨n, t', w'⟩) (hsize : w.world.store.envs.size ≤ w'.world.store.envs.size)
    (hadds : w'.env = a → t'.Adds N) : Adding S o a N ⟨n, t', w'⟩ :=
  ⟨h.placed.calls ho h.making hc, h.making.calls hc, Nat.lt_of_lt_of_le h.older hsize, hadds⟩

theorem adding_lawful (ho : o.TameHost) :
    (Walker.Law.regime (Walker.Adds a N) (Adding S o a N)).Lawful o := by
  refine (Walker.Adds.calm ho).lawful (fun hv hk hd hg hn => ?_) (fun hv room => ?_)
    (fun hv => ?_) fun {n t w t' w'} hv hc hk => ?_
  · refine ⟨rfl, hg.size, fun hp => (hg.parent a (Store.parent_lt_size hp)).trans hp,
      fun hp hx => (hn (Store.parent_lt_size hp) hx).imp_right ?_⟩
    rintro ⟨he, rfl⟩
    exact hv.adds (hk.env.symm.trans he.symm) _ hd
  -- the body of a function and a block have an environment of their own
  · exact hv.calls ho (.body room) (Store.Keeps.callStore (K := fun _ => False) _ _ _).size
      fun he => absurd he.symm (Nat.ne_of_lt hv.older)
  · exact hv.calls ho .block (Store.Keeps.newEnv (K := fun _ => False) _ _).size
      fun he => absurd he.symm (Nat.ne_of_lt hv.older)
  · refine hv.calls ho hc hk.size fun he => ?_
    have hadds : t.Adds N := hv.adds (hk.env.symm.trans he)
    have ht := hv.placed.task
    have none {i : Item} (hi : i.declared? = none) : ∀ x ∈ i.declared?, x ∈ N := by simp [hi]
    cases hc with
    | statement => exact hadds
    | firstItem | restItems | firstOfProgram | restOfProgram => exact hadds.elim
    | body | block => exact absurd he.symm (Nat.ne_of_lt hv.older)
    | ifThen =>
      obtain ⟨role, loop, Γ, hf, -⟩ := ht
      exact none hf.2.1
    | ifElseThen =>
      obtain ⟨role, loop, Γ, hf, -⟩ := ht
      exact none hf.2.1.1
    | ifElseElse =>
      obtain ⟨role, loop, Γ, hf, -⟩ := ht
      exact none hf.2.2.1
    | whileBody =>
      obtain ⟨role, Γ, -, hbody, -⟩ := ht
      exact none hbody.1
    | repeatBody =>
      obtain ⟨role, Γ, hbody, -⟩ := ht
      exact none hbody.1
    | _ => trivial

/-- A task adds only the name that it declares to the environment it is done in. -/
theorem adds (ho : o.TameHost) (hp : Placed S ⟨n, t, w⟩) (hm : Making S o ⟨n, t, w⟩)
    (he : w.env < w.world.store.envs.size) (ha : t.Adds N) :
    w.Adds w.env N (Outcome.state (t.run o n w)) :=
  ((adding_lawful ho).holds n t w ⟨hp, hm, he, fun _ => ha⟩).kept

end Visit

/-! ## Clear visits -/

/-- Outside the global environment, the walker is in an environment that is inside another and has no
    names but those of the innermost scope of the context. -/
def Walker.Within (w : Walker) (Γ : Context) : Prop :=
  w.env ≠ w.globals → Γ ≠ [] ∧ (∃ p, (w.world.store.env w.env).parent = some p)
    ∧ w.world.store.Within w.env Γ

theorem Walker.Within.adds {Γ : Context} (h : w.Within Γ) (hk : w.Kept S w')
    (ha : w.env < w.world.store.envs.size → w.Adds w.env N w') :
    w'.Within (N.elim Γ Γ.declare) := by
  intro hne
  rw [hk.env, hk.globals] at hne
  obtain ⟨hΓ, ⟨p, hp⟩, hw⟩ := h hne
  have hadds := ha (Store.parent_lt_size hp)
  have hnames {x : String} := hadds.names (x := x) hp
  rw [hk.env]
  cases N with
  | none => exact ⟨hΓ, ⟨p, hadds.parent hp⟩, fun scope hs x hx => hw scope hs x ((hnames hx).resolve_right nofun)⟩
  | some name =>
    refine ⟨fun hnil => hΓ ?_, ⟨p, hadds.parent hp⟩, hw.declare fun hx => (hnames hx).imp_right ?_⟩
    · rw [← List.length_eq_zero_iff, ← Context.length_declare name]
      exact List.length_eq_zero_iff.2 hnil
    · exact fun h => (Option.some.inj h).symm

namespace Visit

theorem within (ho : o.TameHost) {Γ : Context} (hp : Placed S ⟨n, t, w⟩) (hm : Making S o ⟨n, t, w⟩)
    (ha : t.Adds N) (h : w.Within Γ) :
    (Outcome.state (t.run o n w)).Within (N.elim Γ Γ.declare) :=
  h.adds (sound ho n t w hp hm).kept fun he => adds ho hp hm he ha

/-- The visit has its place, at a context that has the names of its environment. -/
structure Clear (S : Setting) (o : Options) (v : Visit) : Prop where
  placed : v.Placed S
  making : v.Making S o
  names : v.task.Placed S v.state.distances v.state.world.store v.state.Within

variable {v u : Visit}

/-- A program that is begun in the global environment. -/
theorem Clear.of_program {is : List Item} (hp : Placed S ⟨n, .program is, w⟩)
    (hm : Making S o ⟨n, .program is, w⟩) (he : w.env = w.globals) : Clear S o ⟨n, .program is, w⟩ := by
  obtain ⟨Γ, hf, -⟩ := hp.task
  exact ⟨hp, hm, Γ, hf, fun hne => absurd he hne⟩

/-- Up to a recursive call that is made in the same scope, only an item that is over by then has added
    a name to it. -/
theorem Clear.within (ho : o.TameHost) (h : v.Clear S o) (hc : v.Calls o u) (hopens : v.task.opens = false)
    {Γ : Context} (hΓ : v.state.Within Γ) :
    u.state.Within ((v.task.passed u.task).elim Γ fun i => i.after Γ) := by
  have hk := ((S.lawful ho).calls ⟨h.placed, h.making⟩ hc).2 hopens
  have calm {a : EnvRef} := Walker.Adds.calm (a := a) (N := none) ho
  have passed {n : Nat} {i : Item} {flow : Flow} {w : Walker} (hi : v.Calls o ⟨n, .item i, v.state⟩)
      (executed : Walk.item o n i v.state = .ok flow w) : w.Within (i.after Γ) := by
    have h := Visit.within (t := .item i) ho (h.placed.calls ho h.making hi) (h.making.calls hi) (fun _ => id) hΓ
    rwa [show Task.run o n (.item i) v.state = _ from executed, ← Item.after_eq] at h
  have quiet (ha : v.task.Adds none) : u.state.Within Γ := Walker.Within.adds (N := none) hΓ hk fun he =>
    ((adding_lawful ho).calls ⟨h.placed, h.making, he, fun _ => ha⟩ hc).2 hopens
  cases hc with
  | body | block => cases hopens
  | firstItem | firstOfProgram | var => exact hΓ
  | statement proceeds =>
    rw [Walk.poll_apply] at proceeds
    split at proceeds
    · cases proceeds
    · cases proceeds
      exact Walker.Within.adds (N := none) hΓ hk fun _ => calm.trans (calm.poll _) (calm.count _ _)
  | restItems executed => exact passed .firstItem executed
  | restOfProgram executed => exact passed .firstOfProgram executed
  | _ => exact quiet (by simp [Task.Adds, Item.declared?])

theorem Clear.calls (ho : o.TameHost) (h : v.Clear S o) (hc : v.Calls o u) : u.Clear S o := by
  obtain ⟨hu, hk⟩ := (S.lawful ho).calls ⟨h.placed, h.making⟩ hc
  refine ⟨hu.1, hu.2, ?_⟩
  cases hopens : v.task.opens with
  | false =>
    have hwithin {Γ : Context} := h.within (Γ := Γ) ho hc hopens
    obtain ⟨m, t, w⟩ := v
    obtain ⟨n, t', w'⟩ := u
    obtain rfl : m = n + 1 := by cases hc <;> rfl
    show t'.Placed S w'.distances w'.world.store w'.Within
    rw [(hk hopens).distances]
    exact h.names.part hc hopens ((S.lawful ho).values hu) fun _ => hwithin
  | true =>
    cases hc with
    | body room =>
      obtain ⟨⟨-, Γ, hknown, -⟩, -, -⟩ := h.placed.task
      obtain ⟨role, hf⟩ := h.placed.covers hknown
      refine ⟨some role, false, _, hf, fun _ => ⟨List.cons_ne_nil _ _, ⟨_, Store.parent_callStore _ _ _⟩, ?_⟩⟩
      rintro _ ⟨⟩ x hx
      rcases Store.hasLocal_callStore hx with hx | ⟨-, hx⟩
      · exact absurd (Store.lt_size_of_hasLocal hx) (Nat.lt_irrefl _)
      · exact hx
    | @block n is span w =>
      obtain ⟨role, loop, Γ, hf, -⟩ := h.placed.task
      refine ⟨role, loop, _, hf, fun _ => ⟨List.cons_ne_nil _ _, ⟨w.env, ?_⟩, fun scope hs x hx => ?_⟩⟩
      · show ((w.world.store.newEnv (some w.env)).2.env w.world.store.envs.size).parent = _
        rw [Store.env_newEnv, if_pos rfl]
      · exact absurd (Store.lt_size_of_hasLocal (Store.hasLocal_newEnv hx)) (Nat.lt_irrefl _)
    | _ => cases hopens

theorem Clear.leads (ho : o.TameHost) (h : v.Clear S o) (hl : v.Leads o u) : u.Clear S o := by
  induction hl with
  | refl => exact h
  | tail _ hc ih => exact ih.calls ho hc

/-- A clear visit declares a name that the rules let it declare where it is. -/
theorem Clear.declares (ho : o.TameHost) (h : v.Clear S o) {name : String} (hd : v.Declares o name w) :
    ∃ Γ, S.rules.declares Γ name ∧ w.Within Γ := by
  cases hd with
  | @var n init w₀ x _ _ span evaluated =>
    obtain ⟨role, loop, Γ, hf, hΓ⟩ := h.names
    refine ⟨Γ, hf.1, ?_⟩
    cases init with
    | none =>
      cases evaluated
      exact hΓ
    | some e =>
      have hafter := Visit.within (t := .expr e) (N := none) ho (h.placed.calls ho h.making .var)
        (h.making.calls .var) trivial hΓ
      rwa [show Task.run o n (.expr e) w₀ = _ from evaluated] at hafter
  | function =>
    obtain ⟨role, loop, Γ, hf, hΓ⟩ := h.names
    exact ⟨Γ, hf.1.2, hΓ⟩
  | «class» =>
    obtain ⟨role, loop, Γ, hf, hΓ⟩ := h.names
    exact ⟨Γ, hf.1, hΓ⟩

end Visit

end Eleu

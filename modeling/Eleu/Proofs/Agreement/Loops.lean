import Eleu.Proofs.Agreement.Statements
import Eleu.Proofs.Number.Countdown

/-! # Loops on both executors

    The machine goes through the code of a loop once for each round of the walker. A `repeat` is
    counted down from its count, which the machine has on its stack and the walker keeps as a
    number of rounds: up to 2 ^ 53 the two go along (`Store.rounds_minus_one`). All tasks of the
    walker are then simulated, by induction on the fuel (`Visit.simulated`). -/

namespace Eleu

open Outcome

variable {o : Options} {T : List Reference} {D : List FunctionDecl} {d : Distances} {B n : Nat}
  {w : Walker} {a : Activation} {c : Surroundings} {role : Option FunctionRole} {home : EnvRef}
  {ip next next' k : Nat} {st : List Value} {m : Machine} {V : Prop}

/-- After a round of a loop that goes on, the machine is behind the body. -/
theorem Flowed.proceeds {flow : Flow} {breakTo : Nat}
    (h : Flowed D d a (c.inLoop breakTo next) role home next st flow w m)
    (hf : Walk.afterRound flow = none) : m.Mirrors D d a next st w := by
  cases flow with
  | next => exact h
  | «continue» =>
    obtain ⟨x, ⟨⟩, e, he, hm⟩ := h
    rw [Surroundings.unwind_inLoop] at he
    cases he
    exact hm
  | «break» => exact nomatch hf
  | «return» v => exact nomatch hf

/-- A round ends the loop with a `break`, or with a return that leaves the loop behind. -/
theorem Flowed.stops {flow flow' : Flow} {breakTo continueTo : Nat}
    (h : Flowed D d a (c.inLoop breakTo continueTo) role home next st flow w m)
    (hf : Walk.afterRound flow = some flow') :
    Flowed D d a c role home breakTo st flow' w m := by
  cases flow with
  | next => exact nomatch hf
  | «continue» => exact nomatch hf
  | «break» =>
    cases hf
    obtain ⟨x, ⟨⟩, e, he, hm⟩ := h
    rw [Surroundings.unwind_inLoop] at he
    cases he
    exact hm
  | «return» v =>
    cases hf
    exact h

namespace Visit

/-- A round of a `while` or `for`, and those after it. -/
theorem whileLoop_simulated {test : Expr} {body : Item} {increment : Option Expr} (hB : 0 < B)
    (child : CallsSimulated o T D d B n (.whileLoop test body increment) w)
    (kept : CallsKept o (.plain D T d) n (.whileLoop test body increment) w) :
    Task.Simulated o T D d B (GoesAstray o ⟨n + 1, .whileLoop test body increment, w⟩) (n + 1) w
      (.whileLoop test body increment) := by
  intro a c role home ip st code k m Γ span hcode hf hs hfuel
  have hpieces := hcode
  simp only [itemCode, except_bind_eq_ok, Except.ok.injEq, hs.distances] at hpieces
  obtain ⟨ts, hts, bs, hbs, is, his, heq⟩ := hpieces
  have hbody_length := Item.length_code body (c.nested_inLoop _ _) hbs
  rw [Surroundings.unwind_inLoop] at hbody_length
  rw [← hbody_length, ← length_incrementCode his] at hbs heq
  have hseg := hs.segment
  rw [← heq] at hseg
  obtain ⟨hseg, hjump, hpop', -⟩ := Segment.append.1 hseg
  obtain ⟨hseg, hincrement⟩ := Segment.append.1 hseg
  obtain ⟨hseg, hbody⟩ := Segment.append.1 hseg
  obtain ⟨htest, hcondition, hpop, -⟩ := Segment.append.1 hseg
  have hlength : ip + code.length = ip + ts.length + 2 + bs.length + is.length + 1 + 1 := by
    rw [← heq]
    simp +arith
  simp only [List.length_append, List.length_cons, List.length_nil, ← Nat.add_assoc]
    at hjump hpop' hbody hincrement
  refine .bind (child .whileTest hts htest hs.mirrors (hfuel.child (by omega))) ?_
  intro v w₁ m₁ hv hm₁
  refine .bind (condition_simulated hm₁ hcondition) ?_
  rintro b w₁ m₂ hb ⟨rfl, hm₂⟩
  have hholds := Walk.condition_eq_ok hb
  cases b with
  | false =>
    obtain ⟨m₃, ht, hm₃⟩ := pop_tick (o := o) hm₂ hpop'
    rw [hlength]
    exact .ok ht hm₃
  | true =>
    obtain ⟨m₃, ht, hm₃⟩ := pop_tick (o := o) hm₂ hpop
    have hg₁ := hs.grounded.kept (kept.ok .whileTest hv)
    refine .of_ticks ht (.bind (child (.whileBody hv hholds) hbs hf.2.1.2
      ⟨hs.distances, hbody, hm₃, hg₁.inLoop _ _⟩ (hfuel.child (by omega))) ?_)
    intro flow w₂ m₄ hflow hround
    cases hafter : Walk.afterRound flow with
    | some flow' =>
      rw [hlength]
      exact .ok (.refl m₄) (hround.stops hafter)
    | none =>
      have hm₄ := hround.proceeds hafter
      have hg₂ := hg₁.kept (kept.ok (.whileBody hv hholds) hflow)
      -- the machine jumps back once for each round
      cases increment with
      | none =>
        cases his
        obtain ⟨m₅, ht, hm₅⟩ := jump_tick (o := o) hm₄ hjump
        exact .of_tick ht (child (.whileAgain hv hholds hflow hafter) hcode hf
          ⟨hs.distances, hs.segment, hm₅, hg₂⟩ (hfuel.pred (by omega)))
      | some e =>
        simp only [incrementCode, except_bind_eq_ok, Except.ok.injEq] at his
        obtain ⟨es, hes, rfl⟩ := his
        obtain ⟨hexpr, hpop₂, -⟩ := Segment.append.1 hincrement
        refine .bind (child (.increment hv hholds hflow hafter) hes hexpr hm₄
          (hfuel.child (by simp +arith))) ?_
        intro x w₃ m₅ hx hm₅
        obtain ⟨m₆, ht₆, hm₆⟩ := pop_tick (o := o) hm₅ hpop₂
        rw [List.length_append] at hjump
        obtain ⟨m₇, ht₇, hm₇⟩ := jump_tick (o := o) hm₆ hjump
        have hg₃ := hg₂.kept (kept.ok (.increment hv hholds hflow hafter) hx)
        exact .of_tick (ht₆.trans ht₇) (child (.forAgain hv hholds hflow hafter hx) hcode hf
          ⟨hs.distances, hs.segment, hm₇, hg₃⟩ (hfuel.pred (by omega)))

/-- The count on the stack is tested against the rounds that are left. -/
theorem repeatTest_tick {v : Value} {times target : Nat} {span : Option Span}
    (hm : m.Mirrors D d a ip (v :: st) w) (hi : a.code ip = some ⟨.repeatTest target, span⟩)
    (hrounds : w.world.store.rounds v = .ok times) :
    ∃ m', m.Ticks o 1 m' ∧ m'.Mirrors D d a (if times = 0 then target else ip + 1) (v :: st) w := by
  refine hm.tick hi fun m₁ h₁ => ?_
  rw [Exec.execute_repeatTest h₁.stack, h₁.store, hrounds]
  refine ⟨_, rfl, ?_⟩
  split
  · exact h₁.jump target
  · exact h₁

/-- The machine counts a round. -/
theorem countdown_ticks {v : Value} {times target : Nat} {span : Option Span}
    (hm : m.Mirrors D d a ip (v :: st) w)
    (hseg : Segment a.code ip [⟨.constant (.number .one), span⟩, ⟨.binary .minus, span⟩,
      ⟨.jump target, span⟩, ⟨.pop, span⟩])
    (hrounds : w.world.store.rounds v = .ok (times + 1)) (hle : times + 1 ≤ 2 ^ 53) :
    ∃ v' m', m.Ticks o 3 m' ∧ m'.Mirrors D d a target (v' :: st) w
      ∧ w.world.store.rounds v' = .ok times := by
  obtain ⟨hone, hminus, hjump, -⟩ := hseg
  obtain ⟨v', hv', hrounds'⟩ := Store.rounds_minus_one w.world.store hrounds hle
  obtain ⟨m₁, ht₁, hm₁⟩ := hm.tick (o := o) hone fun m' h' => ⟨_, rfl, h'.push _⟩
  obtain ⟨m₂, ht₂, hm₂⟩ := hm₁.tick (o := o)
    (Q := fun m' => m'.Mirrors D d a (ip + 1 + 1) (v' :: st) w) hminus fun m' h' => by
      rw [Exec.execute_binary h'.stack, h'.store, hv']
      exact ⟨_, rfl, h'.setStack (v' :: st)⟩
  obtain ⟨m₃, ht₃, hm₃⟩ := jump_tick (o := o) hm₂ hjump
  exact ⟨v', m₃, (ht₁.trans ht₂).trans ht₃, hm₃, hrounds'⟩

/-- The rounds that a value stands for do not depend on the store. -/
theorem rounds_eq_ok {s : Store} {v : Value} {times : Nat} (h : s.rounds v = .ok times) (t : Store) :
    t.rounds v = .ok times := by
  cases v with
  | number x =>
    unfold Store.rounds at h ⊢
    cases hx : x.toCount? with
    | some k =>
      simp only [hx] at h ⊢
      exact h
    | none =>
      simp only [hx] at h
      exact nomatch h
  | nil | bool | string | list | callable | object => exact nomatch h

/-- A round of a `repeat`, with the rounds to go on the stack. -/
theorem repeatLoop_simulated {times : Nat} {body : Item} (hB : 0 < B)
    (child : CallsSimulated o T D d B n (.repeatLoop times body) w)
    (kept : CallsKept o (.plain D T d) n (.repeatLoop times body) w) :
    Task.Simulated o T D d B (GoesAstray o ⟨n + 1, .repeatLoop times body, w⟩) (n + 1) w
      (.repeatLoop times body) := by
  intro a c role home ip st code k m Γ v span span' hcode hf hs hrounds hle hfuel
  have hcode' := hcode
  have hsize := Item.length_code body (c.nested_inLoop _ _) hcode
  obtain ⟨hseg, hend⟩ := Segment.append.1 hs.segment
  obtain ⟨htest, hbody⟩ := hseg
  rw [Surroundings.unwind_inLoop] at hsize
  rw [← hsize] at hcode' htest
  rw [List.length_cons, show ip + (code.length + 1) = ip + 1 + code.length by omega] at hend
  have hpop : a.code (ip + 1 + code.length + 3) = some ⟨.pop, span⟩ := hend.2.2.2.1
  obtain ⟨m₁, ht₁, hm₁⟩ := repeatTest_tick (o := o) hs.mirrors htest hrounds
  refine .of_ticks ht₁ ?_
  rw [show ip + code.length + 5 = ip + 1 + code.length + 3 + 1 by omega]
  cases times with
  | zero =>
    obtain ⟨m₂, ht₂, hm₂⟩ := pop_tick (o := o) hm₁ hpop
    exact .ok ht₂ hm₂
  | succ times =>
    refine .bind ((child .repeatBody hcode' hf ⟨hs.distances, hbody, hm₁, hs.grounded.inLoop _ _⟩
      (hfuel.child (by omega))).of_suffix (List.suffix_cons v st)) ?_
    intro flow w₁ m₂ hflow hround
    cases hafter : Walk.afterRound flow with
    | some flow' =>
      -- the count is popped, or stays below what is returned
      have hstops := hround.stops hafter
      cases flow' with
      | next =>
        obtain ⟨m₃, ht₃, hm₃⟩ := pop_tick (o := o) hstops hpop
        exact .ok ht₃ hm₃
      | «break» | «continue» => cases flow <;> cases hafter
      | «return» x =>
        obtain ⟨hrole, p, span', y, st', hm', hi, hst, hreturn⟩ := hstops
        exact .ok (.refl m₂) ⟨hrole, p, span', y, st', hm', hi,
          (List.suffix_cons v st).trans hst, hreturn⟩
    | none =>
      have hg := hs.grounded.kept (kept.ok .repeatBody hflow)
      obtain ⟨v', m₃, ht₃, hm₃, hrounds'⟩ := countdown_ticks (o := o)
        (hround.proceeds hafter) hend (rounds_eq_ok hrounds _) hle
      have hsim := child (.repeatAgain hflow hafter) hcode hf
        ⟨hs.distances, hs.segment, hm₃, hg⟩ hrounds' (by omega) (hfuel.pred (by omega))
      rw [show ip + code.length + 5 = ip + 1 + code.length + 3 + 1 by omega] at hsim
      exact .of_tick ht₃ hsim

end Visit

/-! ## All tasks -/

theorem Task.Simulated.mono {V' : Prop} {t : Task} (h : t.Simulated o T D d B V n w) (hV : V → V') :
    t.Simulated o T D d B V' n w := by
  cases t with
  | expr e => exact fun _ _ _ _ _ _ hc hs hm hk => (h hc hs hm hk).mono hV fun _ _ _ hp => hp
  | exprs es => exact fun _ _ _ _ _ _ hc hs hm hk => (h hc hs hm hk).mono hV fun _ _ _ hp => hp
  | call callee args span => exact fun _ _ _ _ _ hi hm hk => (h hi hm hk).mono hV fun _ _ _ hp => hp
  | closure c args span =>
    exact fun _ _ _ _ _ _ _ hf hi hx hm hk => (h hf hi hx hm hk).mono hV fun _ _ _ hp => hp
  | item i =>
    exact fun _ _ _ _ _ _ _ _ _ _ hc hf hs hk => (h hc hf hs hk).mono hV fun _ _ _ hp => hp
  | items is =>
    exact fun _ _ _ _ _ _ _ _ _ _ hc hf hs hk => (h hc hf hs hk).mono hV fun _ _ _ hp => hp
  | statement i =>
    exact fun _ _ _ _ _ _ _ _ _ _ hc hf hs hk => (h hc hf hs hk).mono hV fun _ _ _ hp => hp
  | whileLoop test body increment =>
    exact fun _ _ _ _ _ _ _ _ _ _ _ hc hf hs hk => (h hc hf hs hk).mono hV fun _ _ _ hp => hp
  | repeatLoop times body =>
    exact fun _ _ _ _ _ _ _ _ _ _ _ _ _ hc hf hs hr hl hk =>
      (h hc hf hs hr hl hk).mono hV fun _ _ _ hp => hp
  | program is =>
    exact fun _ _ _ _ _ _ _ _ _ _ hc hl hr hf hs hk =>
      (h hc hl hr hf hs hk).mono hV fun _ _ _ hp => hp

/-- Without fuel, nothing is asked of the machine. -/
theorem Task.simulated_zero (hB : 0 < B) (t : Task) : t.Simulated o T D d B V 0 w := by
  have hlasts : ∀ {need k : Nat} {m : Machine}, Enough B need k 0 → m.Lasts o k := by
    intro need k m hk
    rw [hk.zero hB]
    exact .zero m
  cases t with
  | expr e => exact fun _ _ _ _ _ _ _ _ _ hk => .outOfFuel (hlasts hk)
  | exprs es => exact fun _ _ _ _ _ _ _ _ _ hk => .outOfFuel (hlasts hk)
  | call callee args span => exact fun _ _ _ _ _ _ _ hk => .outOfFuel (hlasts hk)
  | closure c args span => exact fun _ _ _ _ _ _ _ _ _ _ _ hk => .outOfFuel (hlasts hk)
  | item i => exact fun _ _ _ _ _ _ _ _ _ _ _ _ _ hk => .outOfFuel (hlasts hk)
  | items is => exact fun _ _ _ _ _ _ _ _ _ _ _ _ _ hk => .outOfFuel (hlasts hk)
  | statement i => exact fun _ _ _ _ _ _ _ _ _ _ _ _ _ hk => .outOfFuel (hlasts hk)
  | whileLoop test body increment =>
    exact fun _ _ _ _ _ _ _ _ _ _ _ _ _ _ hk => .outOfFuel (hlasts hk)
  | repeatLoop times body =>
    exact fun _ _ _ _ _ _ _ _ _ _ _ _ _ _ _ _ _ _ hk => .outOfFuel (hlasts hk)
  | program is => exact fun _ _ _ _ _ _ _ _ _ _ _ _ _ _ _ hk => .outOfFuel (hlasts hk)

/-- The machine does what the walker does. -/
theorem Visit.simulated (ho : o.TameHost) (hb : o.BlindHost) (hcancel : o.cancel = none)
    (hids : IdsTell D) (hpos : 0 < B)
    (hB : ∀ decl ∈ D, 3 * sizeOf decl.body ≤ B) :
    ∀ (n : Nat) (t : Task) (w : Walker), Visit.Placed (.plain D T d) ⟨n, t, w⟩ →
      t.Simulated o T D d B (Visit.GoesAstray o ⟨n, t, w⟩) n w := by
  intro n
  induction n with
  | zero => exact fun t w _ => t.simulated_zero hpos
  | succ n ih =>
    intro t w hp
    have making : ∀ v, Visit.Making (.plain D T d) o v := fun _ _ _ => .all _
    have placed : ∀ {t' w'}, Visit.Calls o ⟨n + 1, t, w⟩ ⟨n, t', w'⟩ →
        Visit.Placed (.plain D T d) ⟨n, t', w'⟩ :=
      fun hc => hp.calls ho (making _) hc
    have child : Visit.CallsSimulated o T D d B n t w := fun t' w' hc =>
      (ih t' w' (placed hc)).mono (.of_calls hc)
    have kept : Visit.CallsKept o (.plain D T d) n t w := fun t' w' hc =>
      Ends.mono (Visit.sound ho n t' w' (placed hc) (making _)) (fun _ _ h => h.1) fun _ _ h => h.1
    cases t with
    | expr e => exact Visit.expr_simulated child
    | exprs es => exact Visit.exprs_simulated child
    | call callee args span => exact Visit.call_simulated ho hb child kept
    | closure c args span => exact Visit.closure_simulated hids hB hp child kept
    | item i => exact Visit.item_simulated hcancel child
    | items is => exact Visit.items_simulated child kept
    | statement i => exact Visit.statement_simulated child kept
    | whileLoop test body increment => exact Visit.whileLoop_simulated hpos child kept
    | repeatLoop times body => exact Visit.repeatLoop_simulated hpos child kept
    | program is => exact Visit.program_simulated child kept

end Eleu

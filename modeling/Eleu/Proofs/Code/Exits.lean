import Eleu.Proofs.Code.Emitted
import Mathlib.Logic.Relation

/-! # How the generator comes to the exits of loops

    While code is generated for a tree, the generator calls itself for the parts of the tree, each with
    surroundings and an offset of its own: `Job.Calls`. Wherever it comes to in a tree that follows the
    rules, the scopes around the innermost loop are among those that are open, and a `break` or
    `continue` has a loop to leave (`Job.unwinds`). The number of scopes to leave is therefore their
    difference, and the jump has a target. -/

namespace Eleu

/-- A call of the generator. -/
inductive Job where
  | item (c : Surroundings) (offset : Nat) (i : Item)
  | items (c : Surroundings) (offset : Nat) (is : List Item)

/-- Whether an item leaves a loop or a round of it. -/
def Item.leavesLoop : Item → Bool
  | .break _ | .continue _ => true
  | _ => false

namespace Job

/-- What the generator is called for next, by the recursion of `itemCode` and `itemsCode`. -/
inductive Calls : Job → Job → Prop where
  | first : Calls (.items c n (i :: is)) (.item c n i)
  | rest (generated : itemCode c n i = .ok code) :
      Calls (.items c n (i :: is)) (.items c (n + code.length) is)
  | block : Calls (.item c n (.block is span)) (.items c.inScope (n + 1) is)
  | ifThen (tested : exprCode c.distances e = .ok test) :
      Calls (.item c n (.ifThen e t span)) (.item c (n + test.length + 2) t)
  | ifElseThen (tested : exprCode c.distances e = .ok test) :
      Calls (.item c n (.ifElse e t f span)) (.item c (n + test.length + 2) t)
  | ifElseElse (tested : exprCode c.distances e = .ok test)
      (generated : itemCode c (n + test.length + 2) t = .ok thenCode) :
      Calls (.item c n (.ifElse e t f span))
        (.item c (n + test.length + 2 + thenCode.length + 1 + 1) f)
  | whileBody (tested : exprCode c.distances e = .ok test) :
      Calls (.item c n (.while e body increment span))
        (.item (c.inLoop (n + test.length + 2 + body.size 0 + incrementSize increment + 1 + 1)
          (n + test.length + 2 + body.size 0)) (n + test.length + 2) body)
  | repeatBody (counted : exprCode c.distances e = .ok counter) :
      Calls (.item c n (.repeat e body span))
        (.item (c.inLoop (n + counter.length + 1 + body.size 0 + 3)
          (n + counter.length + 1 + body.size 0)) (n + counter.length + 1) body)

/-- A call of the generator leads to another one, directly or through others. -/
abbrev Leads : Job → Job → Prop := Relation.ReflTransGen Calls

/-- What the generator gives. -/
def code : Job → Except Fault (List Instr)
  | .item c n i => itemCode c n i
  | .items c n is => itemsCode c n is

/-- Where the code is to stand. -/
def offset : Job → Nat
  | .item _ n _ | .items _ n _ => n

/-- The code that the generator gives stands in `C`. -/
def Stands (C : Nat → Option Instr) (job : Job) : Prop :=
  ∃ code, job.code = .ok code ∧ Segment C job.offset code

/-- Wherever the generator comes to an exit of a loop, there is a loop around, and it was entered with
    no more scopes open than there are now. -/
def Unwinds (root : Job) : Prop :=
  ∀ c n i, root.Leads (.item c n i) → i.leavesLoop = true →
    ∃ x, c.innermost = some x ∧ x.scopes ≤ c.scopes

/-- What is to be generated follows the rules, and stands in the innermost loop if it is in one. -/
def Follows (R : Rules) (d : Distances) : Job → Prop
  | .item c _ i => c.Nested ∧ ∃ role loop Γ, i.Follows R d role loop Γ
      ∧ (loop = true → c.innermost.isSome = true)
  | .items c _ is => c.Nested ∧ ∃ role loop Γ, itemsFollow R d role loop Γ is
      ∧ (loop = true → c.innermost.isSome = true)

variable {R : Rules} {d : Distances} {job job' : Job} {C : Nat → Option Instr}

/-! ## What is called for stands in the code -/

open Outcome (except_bind_eq_ok)

/-- The code of a part stands at its offset within the code of the whole. -/
theorem Stands.calls (h : job.Stands C) (hc : job.Calls job') : job'.Stands C := by
  obtain ⟨code, hcode, hC⟩ := h
  cases hc with
  | first =>
    simp only [Job.code, itemsCode, except_bind_eq_ok, Except.ok.injEq] at hcode
    obtain ⟨a, ha, b, hb, rfl⟩ := hcode
    exact ⟨a, ha, (Segment.append.1 hC).1⟩
  | rest generated =>
    simp only [Job.code, itemsCode, except_bind_eq_ok, Except.ok.injEq] at hcode
    obtain ⟨a, ha, b, hb, rfl⟩ := hcode
    cases generated.symm.trans ha
    exact ⟨b, hb, (Segment.append.1 hC).2⟩
  | block =>
    simp only [Job.code, itemCode, except_bind_eq_ok, Except.ok.injEq] at hcode
    obtain ⟨a, ha, rfl⟩ := hcode
    exact ⟨a, ha, (Segment.append.1 hC.2).1⟩
  | ifThen tested =>
    simp only [Job.code, itemCode, except_bind_eq_ok, Except.ok.injEq] at hcode
    obtain ⟨a, ha, b, hb, rfl⟩ := hcode
    cases tested.symm.trans ha
    simp only [Segment.append, List.length_append] at hC
    exact ⟨b, hb, hC.1.2⟩
  | ifElseThen tested =>
    simp only [Job.code, itemCode, except_bind_eq_ok, Except.ok.injEq] at hcode
    obtain ⟨a, ha, b, hb, b', hb', rfl⟩ := hcode
    cases tested.symm.trans ha
    simp only [Segment.append, List.length_append] at hC
    exact ⟨b, hb, hC.1.1.2⟩
  | ifElseElse tested generated =>
    simp only [Job.code, itemCode, except_bind_eq_ok, Except.ok.injEq] at hcode
    obtain ⟨a, ha, b, hb, b', hb', rfl⟩ := hcode
    cases tested.symm.trans ha
    cases generated.symm.trans hb
    simp only [Segment.append, List.length_append, ← Nat.add_assoc] at hC
    exact ⟨b', hb', hC.2⟩
  | whileBody tested =>
    simp only [Job.code, itemCode, except_bind_eq_ok, Except.ok.injEq] at hcode
    obtain ⟨a, ha, b, hb, s, hs, rfl⟩ := hcode
    cases tested.symm.trans ha
    simp only [Segment.append, List.length_append] at hC
    exact ⟨b, hb, hC.1.1.2⟩
  | repeatBody counted =>
    simp only [Job.code, itemCode, except_bind_eq_ok, Except.ok.injEq] at hcode
    obtain ⟨a, ha, b, hb, rfl⟩ := hcode
    cases counted.symm.trans ha
    simp only [Segment.append, List.length_append] at hC
    exact ⟨b, hb, hC.1.2⟩

theorem Stands.leads (h : job.Stands C) (hl : job.Leads job') : job'.Stands C := by
  induction hl with
  | refl => exact h
  | tail _ hc ih => exact ih.calls hc

/-! ## Exits of loops -/

theorem Follows.calls (h : job.Follows R d) (hc : job.Calls job') : job'.Follows R d := by
  cases hc with
  | first =>
    obtain ⟨hn, role, loop, Γ, hf, hl⟩ := h
    exact ⟨hn, role, loop, Γ, hf.1, hl⟩
  | rest =>
    obtain ⟨hn, role, loop, Γ, hf, hl⟩ := h
    exact ⟨hn, role, loop, _, hf.2, hl⟩
  | block =>
    obtain ⟨hn, role, loop, Γ, hf, hl⟩ := h
    exact ⟨hn.inScope, role, loop, _, hf, hl⟩
  | ifThen =>
    obtain ⟨hn, role, loop, Γ, hf, hl⟩ := h
    exact ⟨hn, role, loop, Γ, hf.2.2, hl⟩
  | ifElseThen =>
    obtain ⟨hn, role, loop, Γ, hf, hl⟩ := h
    exact ⟨hn, role, loop, Γ, hf.2.1.2, hl⟩
  | ifElseElse =>
    obtain ⟨hn, role, loop, Γ, hf, hl⟩ := h
    exact ⟨hn, role, loop, Γ, hf.2.2.2, hl⟩
  | whileBody =>
    obtain ⟨-, role, loop, Γ, hf, -⟩ := h
    exact ⟨Surroundings.nested_inLoop _ _ _, role, true, Γ, hf.2.1.2, fun _ => rfl⟩
  | repeatBody =>
    obtain ⟨-, role, loop, Γ, hf, -⟩ := h
    exact ⟨Surroundings.nested_inLoop _ _ _, role, true, Γ, hf.2.2, fun _ => rfl⟩

theorem Follows.leads (h : job.Follows R d) (hl : job.Leads job') : job'.Follows R d := by
  induction hl with
  | refl => exact h
  | tail _ hc ih => exact ih.calls hc

/-- Items that follow the rules leave loops only from inside. -/
theorem Follows.unwinds (h : job.Follows R d) : job.Unwinds := by
  intro c n i hl hi
  obtain ⟨hn, role, loop, Γ, hf, hloop⟩ := h.leads hl
  -- the rules allow an exit only within a loop
  have hin : loop = true := by
    cases i with
    | «break» span | «continue» span => exact hf
    | _ => exact nomatch hi
  obtain ⟨x, hx⟩ := Option.isSome_iff_exists.1 (hloop hin)
  exact ⟨x, hx, hn x hx⟩

/-- The generator at the start of a chunk. -/
theorem unwinds {c : Surroundings} (hc : c.innermost = none) {role : Option FunctionRole} {Γ : Context}
    {is : List Item} (hf : itemsFollow R d role false Γ is) (n : Nat) : (Job.items c n is).Unwinds := by
  refine Follows.unwinds (R := R) (d := d) ⟨fun x hx => ?_, role, false, Γ, hf, Bool.noConfusion⟩
  rw [hc] at hx
  exact nomatch hx

end Job

end Eleu

import Eleu.Code.Emit
import Eleu.Proofs.Library.Results
import Eleu.Proofs.Scope.Context
import Eleu.Proofs.Tree.Origin

/-! # What code comes from

    Every instruction stands at the place of a node of the tree that it was generated for, and the
    functions it refers to are declared in that tree. Its constants refer to nothing. The code is as
    long as the size of the tree says.

    Code generation fails only for a fault of the script at a place of the tree, and not in a tree that
    follows rules by which every `super` has a distance. -/

namespace Eleu

variable {role : Option FunctionRole} {c : Chunk} {Γ : Context} {decl : FunctionDecl}
  {p : Option String} {items : List Item}

/-! ## Chunks -/

namespace Chunk

theorem instr?_isSome {n : Nat} : (c.instr? n).isSome ↔ n < c.ops.size := by
  simp [instr?]

theorem instr?_eq_none {n : Nat} : c.instr? n = none ↔ c.ops.size ≤ n := by
  simp [instr?]

theorem op_of_instr? {n : Nat} {i : Instr} (h : c.instr? n = some i) : c.ops[n]? = some i.op := by
  obtain ⟨op, hop, rfl⟩ := Option.map_eq_some_iff.1 h
  exact hop

/-- There are as many places beside the operations as there are operations. -/
def Paired (c : Chunk) : Prop := c.spans.size = c.ops.size

theorem Paired.add (h : c.Paired) (i : Instr) : (c.add i).Paired := by
  simpa [Paired, Chunk.add] using h

/-- An instruction that is appended stands at the end, with its place beside it. -/
theorem Paired.instr?_add (h : c.Paired) (i : Instr) (n : Nat) :
    (c.add i).instr? n = if n = c.ops.size then some i else c.instr? n := by
  have hs : c.spans.size = c.ops.size := h
  simp only [instr?, span?, Chunk.add, Array.getElem?_push, hs]
  split <;> rfl

/-- Code that is appended to a chunk stands at its end. -/
theorem Paired.addAll (h : c.Paired) (is : List Instr) :
    (c.addAll is).Paired ∧ (c.addAll is).ops.size = c.ops.size + is.length
      ∧ ∀ n, (c.addAll is).instr? n = if n < c.ops.size then c.instr? n else is[n - c.ops.size]? := by
  induction is generalizing c with
  | nil =>
    refine ⟨h, rfl, fun n => ?_⟩
    split
    · rfl
    · next hn => exact instr?_eq_none.2 (Nat.le_of_not_lt hn)
  | cons i is ih =>
    have hsize : (c.add i).ops.size = c.ops.size + 1 := Array.size_push ..
    obtain ⟨hpaired, hlength, hat⟩ := ih (h.add i)
    refine ⟨hpaired, hlength.trans (by rw [hsize, List.length_cons]; omega), fun n => ?_⟩
    refine (hat n).trans ?_
    rw [hsize, h.instr?_add]
    rcases Nat.lt_trichotomy n c.ops.size with hn | rfl | hn
    · rw [if_pos (Nat.lt_succ_of_lt hn), if_neg (Nat.ne_of_lt hn), if_pos hn]
    · rw [if_pos (Nat.lt_succ_self _), if_pos rfl, if_neg (Nat.lt_irrefl _), Nat.sub_self]
      rfl
    · obtain ⟨k, rfl⟩ := Nat.exists_eq_add_of_lt hn
      rw [if_neg (by omega), if_neg (by omega), show c.ops.size + k + 1 - c.ops.size = k + 1 by omega,
        show c.ops.size + k + 1 - (c.ops.size + 1) = k by omega]
      rfl

/-- A chunk has the code that it was made from, and a place for every operation. -/
theorem paired_addAll (name : String) (is : List Instr) : (Chunk.addAll { name } is).Paired :=
  (Paired.addAll (c := { name }) rfl is).1

@[simp] theorem size_addAll (name : String) (is : List Instr) :
    (Chunk.addAll { name } is).ops.size = is.length := by
  rw [(Paired.addAll (c := { name }) rfl is).2.1]
  exact Nat.zero_add _

@[simp] theorem instr?_addAll (name : String) (is : List Instr) (n : Nat) :
    (Chunk.addAll { name } is).instr? n = is[n]? :=
  (Paired.addAll (c := { name }) rfl is).2.2 n

end Chunk

/-- What an operation refers to comes from the origin. -/
def Op.From (O : Origin) : Op → Prop
  | .constant v => v.Inert
  | .function decl => O.declared decl
  | .class _ methods => ∀ d ∈ methods, O.declared d
  | _ => True

/-- An instruction that comes from the origin. It has a place there. -/
structure Instr.From (O : Origin) (i : Instr) : Prop where
  op : i.op.From O
  span : ∃ p, i.span = some p ∧ O.place p

/-- Code of the given size that comes from the origin. -/
structure CodeFrom (O : Origin) (size : Nat) (code : List Instr) : Prop where
  length : code.length = size
  instrs : ∀ i ∈ code, i.From O

variable {O : Origin} {d : Distances} {code : List Instr} {span : Span}

namespace CodeFrom

variable {n k : Nat} {op : Op}

theorem nil : CodeFrom O 0 [] := ⟨rfl, fun _ h => nomatch h⟩

theorem cons (hs : O.place span) (h : CodeFrom O n code) (hop : op.From O := by trivial) :
    CodeFrom O (n + 1) (⟨op, span⟩ :: code) :=
  ⟨congrArg (· + 1) h.length, List.forall_mem_cons.2 ⟨⟨hop, span, rfl, hs⟩, h.instrs⟩⟩

theorem single (hs : O.place span) (hop : op.From O := by trivial) : CodeFrom O 1 [⟨op, span⟩] :=
  .cons hs .nil hop

theorem append {code' : List Instr} (h : CodeFrom O n code) (h' : CodeFrom O k code') :
    CodeFrom O (n + k) (code ++ code') :=
  ⟨by rw [List.length_append, h.length, h'.length], List.forall_mem_append.2 ⟨h.instrs, h'.instrs⟩⟩

/-- One more instruction at the end. -/
theorem snoc (h : CodeFrom O n code) (hs : O.place span) (hop : op.From O := by trivial) :
    CodeFrom O (n + 1) (code ++ [⟨op, span⟩]) := h.append (.single hs hop)

theorem resize (h : CodeFrom O n code) (hn : n = k) : CodeFrom O k code := hn ▸ h

end CodeFrom

/-- A chunk all of whose instructions come from the origin. -/
def Chunk.From (O : Origin) (c : Chunk) : Prop :=
  ∀ ⦃n : Nat⦄ ⦃i : Instr⦄, c.instr? n = some i → i.From O

/-- A chunk of instructions that come from the origin. -/
theorem Chunk.from_addAll (name : String) {is : List Instr} (h : ∀ i ∈ is, i.From O) :
    (Chunk.addAll { name } is).From O := by
  intro n i hi
  rw [instr?_addAll] at hi
  exact h i (List.mem_of_getElem? hi)

/-- A fault of the script at a place of the origin, which is not to be had if `H` holds. -/
structure Fault.Refuses (O : Origin) (H : Prop) (f : Fault) : Prop where
  «from» : f.From O
  sound : f.cause.Sound
  not : ¬ H

/-- Code of the given size comes from the origin, or else a fault that is not to be had if `H` holds. -/
abbrev Emits (O : Origin) (H : Prop) (size : Nat) (r : Except Fault (List Instr)) : Prop :=
  Yields r (CodeFrom O size) (Fault.Refuses O H)

theorem Literal.Finite.value {l : Literal} (h : l.Finite) : ∃ v, Value.ofLiteral l = .ok v := by
  cases l with
  | nil => exact ⟨_, rfl⟩
  | bool b => exact ⟨_, rfl⟩
  | string s => exact ⟨_, rfl⟩
  | number x =>
    have hx : Number.ofFloat? x = some ⟨x, h⟩ := dif_pos h
    exact ⟨_, by rw [Value.ofLiteral, hx]⟩

/-- No loop around a piece of code has more scopes around it than the code. -/
def Surroundings.Nested (c : Surroundings) : Prop := ∀ x ∈ c.innermost, x.scopes ≤ c.scopes

namespace Surroundings

variable {c : Surroundings}

theorem Nested.inScope (h : c.Nested) : c.inScope.Nested := fun x hx =>
  Nat.le_succ_of_le (h x hx)

theorem Nested.of_none (h : c.innermost = none) : c.Nested := by
  intro x hx
  rw [h] at hx
  exact nomatch hx

theorem nested_inLoop (c : Surroundings) (breakTo continueTo : Nat) :
    (c.inLoop breakTo continueTo).Nested := by
  rintro x ⟨⟩
  exact Nat.le_refl _

@[simp] theorem unwind_inLoop (c : Surroundings) (breakTo continueTo : Nat) :
    (c.inLoop breakTo continueTo).unwind = 0 := by
  simp [unwind, inLoop]

theorem Nested.unwind_inScope (h : c.Nested) : c.inScope.unwind = c.unwind + 1 := by
  rcases hx : c.innermost with - | x
  · simp [unwind, Surroundings.inScope, hx]
  · have := h x (by simp [hx])
    simp only [unwind, Surroundings.inScope, hx, Option.map_some, Option.getD_some]
    omega

end Surroundings

section Emission

open List (forall_mem_cons forall_mem_append)

-- The rules matter only where `H` is known, so that without them `H` is taken to be false.
variable {R : Rules} {H : Prop}
  (hR : H → ∀ {r : Reference} {depth : Option Nat}, R.supers r depth → depth ≠ none)

include hR

-- in a mutual block the linter does not see the use in the other theorem
set_option linter.unusedSectionVars false

/-! ## Expressions -/

mutual

/-- The code of an expression comes from its tree. -/
theorem exprCode_emits : ∀ e : Expr, (∀ s ∈ e.spans, O.place s) →
    (H → e.Follows R d p Γ) → Emits O H e.size (exprCode d e)
  | .literal value span, hs, h => by
    have hspan : O.place span := hs span (.head _)
    have hinert := Value.ofLiteral_inert value
    rw [exprCode]
    cases hv : Value.ofLiteral value with
    | ok v =>
      rw [hv] at hinert
      exact CodeFrom.single hspan hinert
    | error cause =>
      rw [hv] at hinert
      refine ⟨Fault.from_placed cause hspan, hinert.sound, fun hH => ?_⟩
      obtain ⟨v, hok⟩ := Literal.Finite.value (h hH)
      exact nomatch hv.symm.trans hok
  | .name _ span, hs, _ | .this _ span, hs, _ => CodeFrom.single (hs span (.head _))
  | .super ident _ span, hs, h => by
    have hspan : O.place span := hs span (.head _)
    rw [exprCode]
    cases hd : d.get? ident.id with
    | some depth => exact CodeFrom.single hspan
    | none => exact ⟨Fault.from_placed _ hspan, rfl, fun hH => hR hH (h hH) hd⟩
  | .list es _, hs, h => by
    obtain ⟨hspan, hes⟩ := forall_mem_cons.1 hs
    exact (exprsCode_emits es hes h).bind fun _ hc => hc.append (.cons hspan (.single hspan))
  | .assign _ e _, hs, h => by
    obtain ⟨hspan, he⟩ := forall_mem_cons.1 hs
    exact (exprCode_emits e he fun hH => (h hH).2.1).bind fun _ hc => hc.snoc hspan
  | .unary _ e _, hs, h | .getField e _ _, hs, h => by
    obtain ⟨hspan, he⟩ := forall_mem_cons.1 hs
    exact (exprCode_emits e he h).bind fun _ hc => hc.snoc hspan
  | .binary l _ r _, hs, h | .logical l _ r _, hs, h | .setField l _ r _, hs, h => by
    obtain ⟨hspan, hparts⟩ := forall_mem_cons.1 hs
    obtain ⟨hl, hr⟩ := forall_mem_append.1 hparts
    exact (exprCode_emits l hl fun hH => (h hH).1).bind fun _ hc =>
      (exprCode_emits r hr fun hH => (h hH).2).bind fun _ hc' => (hc.append hc').snoc hspan
  | .group e _, hs, h => exprCode_emits e (forall_mem_cons.1 hs).2 h
  | .call f es _, hs, h => by
    obtain ⟨hspan, hparts⟩ := forall_mem_cons.1 hs
    obtain ⟨hf, hes⟩ := forall_mem_append.1 hparts
    exact (exprsCode_emits es hes fun hH => (h hH).1).bind fun _ hc =>
      (exprCode_emits f hf fun hH => (h hH).2).bind fun _ hc' => (hc.append hc').snoc hspan

theorem exprsCode_emits : ∀ es : List Expr,
    (∀ s ∈ exprsSpans es, O.place s) → (H → exprsFollow R d p Γ es) →
    Emits O H (exprsSize es) (exprsCode d es)
  | [], _, _ => CodeFrom.nil
  | e :: es, hs, h => by
    obtain ⟨he, hes⟩ := forall_mem_append.1 hs
    exact (exprCode_emits e he fun hH => (h hH).1).bind fun _ hc =>
      (exprsCode_emits es hes fun hH => (h hH).2).bind fun _ hc' => hc.append hc'

end

theorem initCode_emits (hspan : O.place span) (init : Option Expr)
    (hs : ∀ s ∈ optionSpans init, O.place s) (h : H → ∀ e ∈ init, e.Follows R d p Γ) :
    Emits O H (initSize init) (initCode d span init) := by
  cases init with
  | none => exact CodeFrom.single hspan
  | some e => exact exprCode_emits hR e hs fun hH => h hH e rfl

theorem incrementCode_emits (increment : Option Expr) (hs : ∀ s ∈ optionSpans increment, O.place s)
    (h : H → ∀ e ∈ increment, e.Follows R d none Γ) :
    Emits O H (incrementSize increment) (incrementCode d increment) := by
  cases increment with
  | none => exact CodeFrom.nil
  | some e =>
    exact (exprCode_emits hR e hs fun hH => h hH e rfl).bind fun _ hc =>
      hc.snoc (hs _ e.span_mem_spans)

/-! ## Items -/

omit hR in
theorem Surroundings.bareReturn_from (c : Surroundings) (hspan : O.place span) :
    CodeFrom O 2 (c.bareReturn span) := by
  refine .cons hspan (.single hspan) ?_
  split <;> exact trivial

omit hR in
theorem Surroundings.leave_from (c : Surroundings) (target : Option Nat) (hspan : O.place span) :
    CodeFrom O (leaveSize c.unwind) (c.leave target span) := by
  unfold Surroundings.leave leaveSize
  dsimp only
  split
  · exact .single hspan
  · exact .cons hspan (.single hspan)

/-- The test of a branch or a loop: the condition, and what follows on it. -/
theorem test_emits (e : Expr) (hs : ∀ s ∈ e.spans, O.place s) (h : H → e.Follows R d none Γ)
    (hspan : O.place span) {size : Nat} {f : List Instr → Except Fault (List Instr)}
    (hf : ∀ test, (∀ n, CodeFrom O (e.size + 2) (test ++ [⟨.jumpIfFalse n, e.span⟩, ⟨.pop, span⟩])) →
      Emits O H size (f test)) : Emits O H size (exprCode d e >>= f) :=
  (exprCode_emits hR e hs h).bind fun test htest => hf test fun _ =>
    htest.append (.cons (hs _ e.span_mem_spans) (.single hspan))

mutual

/-- So does that of an item. -/
theorem itemCode_emits : ∀ (i : Item) {c : Surroundings} {n : Nat}
    {loop : Bool} {Γ : Context}, c.Nested → (∀ s ∈ i.spans, O.place s) →
    (∀ f ∈ i.declarations, O.declared f) → (H → i.Follows R c.distances role loop Γ) →
    Emits O H (i.size c.unwind) (itemCode c n i)
  | .expr e _, _, _, _, _, _, hs, _, h | .assert e _ _, _, _, _, _, _, hs, _, h => by
    obtain ⟨hspan, he⟩ := forall_mem_cons.1 hs
    exact (exprCode_emits hR e he h).bind fun _ hc => hc.snoc hspan
  | .return (some e) _, _, _, _, _, _, hs, _, h => by
    obtain ⟨hspan, he⟩ := forall_mem_cons.1 hs
    exact (exprCode_emits hR e he fun hH => (h hH).2 e rfl).bind fun _ hc => hc.snoc hspan
  | .assertFails e _ _, _, _, _, _, _, hs, _, h => by
    obtain ⟨hspan, he⟩ := forall_mem_cons.1 hs
    exact (exprCode_emits hR e he h).bind fun _ hc =>
      .cons hspan (hc.snoc (he _ e.span_mem_spans))
  | .var _ init _, _, _, _, _, _, hs, _, h => by
    obtain ⟨hspan, hinit⟩ := forall_mem_cons.1 hs
    exact (initCode_emits hR hspan init hinit fun hH => (h hH).2).bind fun _ hc => hc.snoc hspan
  | .block items _, c, _, _, _, hc, hs, hd, h => by
    obtain ⟨hspan, hitems⟩ := forall_mem_cons.1 hs
    rw [Item.size, ← hc.unwind_inScope]
    exact (itemsCode_emits items hc.inScope hitems hd h).bind fun _ hcode =>
      .cons hspan (hcode.snoc hspan)
  | .ifThen e t _, _, _, _, _, hc, hs, hd, h => by
    obtain ⟨hspan, hparts⟩ := forall_mem_cons.1 hs
    obtain ⟨he, ht⟩ := forall_mem_append.1 hparts
    refine test_emits hR e he (fun hH => (h hH).1) hspan fun _ htest => ?_
    refine (itemCode_emits t hc ht hd fun hH => (h hH).2.2).bind fun _ hthen => ?_
    exact (((htest _).append hthen).append (.cons hspan (.single hspan))).resize
      (by rw [Item.size]; omega)
  | .ifElse e t f _, _, _, _, _, hc, hs, hd, h => by
    obtain ⟨hspan, hparts⟩ := forall_mem_cons.1 hs
    obtain ⟨he, hitems⟩ := forall_mem_append.1 hparts
    obtain ⟨ht, hf⟩ := forall_mem_append.1 hitems
    obtain ⟨htd, hfd⟩ := forall_mem_append.1 hd
    refine test_emits hR e he (fun hH => (h hH).1) hspan fun _ htest => ?_
    refine (itemCode_emits t hc ht htd fun hH => (h hH).2.1.2).bind fun _ hthen => ?_
    refine (itemCode_emits f hc hf hfd fun hH => (h hH).2.2.2).bind fun _ helse => ?_
    exact ((((htest _).append hthen).append (.cons hspan (.single hspan))).append helse).resize
      (by rw [Item.size]; omega)
  | .while e body increment _, c, _, _, _, _, hs, hd, h => by
    obtain ⟨hspan, hparts⟩ := forall_mem_cons.1 hs
    obtain ⟨he, hrest⟩ := forall_mem_append.1 hparts
    obtain ⟨hb, hi⟩ := forall_mem_append.1 hrest
    refine test_emits hR e he (fun hH => (h hH).1) hspan fun _ htest => ?_
    refine (itemCode_emits body (c.nested_inLoop _ _) hb hd fun hH => (h hH).2.1.2).bind
      fun _ hbody => ?_
    refine (incrementCode_emits hR increment hi fun hH => (h hH).2.2).bind fun _ hstep => ?_
    exact ((((htest _).append hbody).append hstep).append (.cons hspan (.single hspan))).resize
      (by rw [Item.size, c.unwind_inLoop]; omega)
  | .repeat e body _, c, _, _, _, _, hs, hd, h => by
    obtain ⟨hspan, hparts⟩ := forall_mem_cons.1 hs
    obtain ⟨he, hb⟩ := forall_mem_append.1 hparts
    refine (exprCode_emits hR e he fun hH => (h hH).1).bind fun _ hcount => ?_
    refine (itemCode_emits body (c.nested_inLoop _ _) hb hd fun hH => (h hH).2.2).bind
      fun _ hbody => ?_
    exact (((hcount.snoc (he _ e.span_mem_spans)).append hbody).append
      (.cons hspan (.cons hspan (.cons hspan (.single hspan))))).resize
      (by rw [Item.size, c.unwind_inLoop]; omega)
  | .return none span, c, _, _, _, _, hs, _, _ => c.bareReturn_from (hs span (.head _))
  | .break span, c, _, _, _, _, hs, _, _ | .continue span, c, _, _, _, _, hs, _, _ =>
    c.leave_from _ (hs span (.head _))
  | .function decl span, _, _, _, _, _, hs, hd, _ =>
    CodeFrom.single (hs span (.head _)) (hd decl decl.mem_declarations)
  | .class _ none _ span, _, _, _, _, _, hs, hd, _ =>
    have hspan : O.place span := hs span (.head _)
    CodeFrom.cons hspan (.single hspan fun m hm => hd m (mem_declarationsInMethods hm))
  | .class _ (some _) _ span, _, _, _, _, _, hs, hd, _ =>
    have hspan : O.place span := hs span (.head _)
    CodeFrom.cons hspan (.cons hspan (.single hspan fun m hm => hd m (mem_declarationsInMethods hm)))

theorem itemsCode_emits : ∀ (is : List Item) {c : Surroundings} {n : Nat}
    {loop : Bool} {Γ : Context}, c.Nested → (∀ s ∈ itemsSpans is, O.place s) →
    (∀ f ∈ declarationsIn is, O.declared f) → (H → itemsFollow R c.distances role loop Γ is) →
    Emits O H (itemsSize c.unwind is) (itemsCode c n is)
  | [], _, _, _, _, _, _, _, _ => CodeFrom.nil
  | i :: is, _, _, _, _, hc, hs, hd, h => by
    obtain ⟨hi, his⟩ := forall_mem_append.1 hs
    obtain ⟨hid, hisd⟩ := forall_mem_append.1 hd
    exact (itemCode_emits i hc hi hid fun hH => (h hH).1).bind fun _ hcode =>
      (itemsCode_emits is hc his hisd fun hH => (h hH).2).bind fun _ hrest => hcode.append hrest

end

/-! ## The chunks of programs and functions -/

/-- So does the chunk of a program. -/
theorem programChunk_emits (name : String) (hs : ∀ s ∈ itemsSpans items, O.place s)
    (hd : ∀ f ∈ declarationsIn items, O.declared f) (h : H → itemsFollow R d none false [] items) :
    Yields (programChunk d name items) (Chunk.From O) (Fault.Refuses O H) :=
  (itemsCode_emits hR items (c := { distances := d }) (.of_none rfl) hs hd h).bind fun _ hcode =>
    Chunk.from_addAll name hcode.instrs

/-- So does that of a function. -/
theorem functionChunk_emits (hdecl : O.declared decl) {loop : Bool}
    (h : H → itemsFollow R d role loop Γ decl.body) :
    Yields (functionChunk d decl) (Chunk.From O) (Fault.Refuses O H) := by
  have hspans := O.spans hdecl
  rw [FunctionDecl.spans_eq] at hspans
  obtain ⟨hspan, hbody⟩ := forall_mem_cons.1 hspans
  let c : Surroundings := { distances := d, initialiser := decl.isInitialiser }
  refine (itemsCode_emits hR decl.body (c := c) (.of_none rfl) hbody (O.inner hdecl) h).bind
    fun _ hcode => ?_
  exact Chunk.from_addAll _ (hcode.append (Surroundings.bareReturn_from _ hspan)).instrs

end Emission

/-- The chunk of a program comes from the origin. -/
theorem programChunk_from (name : String) (hs : ∀ s ∈ itemsSpans items, O.place s)
    (hd : ∀ f ∈ declarationsIn items, O.declared f) :
    Yields (programChunk d name items) (Chunk.From O) (Fault.Refuses O False) :=
  programChunk_emits False.elim name hs hd (False.elim : _ → itemsFollow .lax d none false [] items)

/-- So does the chunk of a function that is declared there. -/
theorem functionChunk_from (h : O.declared decl) :
    Yields (functionChunk d decl) (Chunk.From O) (Fault.Refuses O False) :=
  functionChunk_emits False.elim h (False.elim : _ → itemsFollow .lax d none false [] decl.body)

/-- The chunk of a program has a place beside each operation. -/
theorem programChunk_paired {name : String} (h : programChunk d name items = .ok c) : c.Paired := by
  obtain ⟨code, -, ⟨⟩⟩ := Outcome.except_bind_eq_ok.1 h
  exact Chunk.paired_addAll name code

/-- So has the chunk of a function. -/
theorem functionChunk_paired (h : functionChunk d decl = .ok c) : c.Paired := by
  obtain ⟨code, -, ⟨⟩⟩ := Outcome.except_bind_eq_ok.1 h
  exact Chunk.paired_addAll decl.name _

/-! ## Lengths -/

theorem Emits.length_eq {H : Prop} {size : Nat} {r : Except Fault (List Instr)} (h : Emits O H size r)
    (hr : r = .ok code) : code.length = size := by
  rw [hr] at h
  exact h.length

section

variable {c : Surroundings} {n : Nat} {init increment : Option Expr}

theorem Expr.length_code (e : Expr) (h : exprCode d e = .ok code) : code.length = e.size :=
  (exprCode_emits (O := .all) False.elim e (fun _ _ => trivial)
    (False.elim : _ → e.Follows .lax d none [])).length_eq h

theorem length_exprsCode (es : List Expr) (h : exprsCode d es = .ok code) : code.length = exprsSize es :=
  (exprsCode_emits (O := .all) False.elim es (fun _ _ => trivial)
    (False.elim : _ → exprsFollow .lax d none [] es)).length_eq h

theorem length_initCode (h : initCode d span init = .ok code) : code.length = initSize init :=
  (initCode_emits (O := .all) False.elim trivial init (fun _ _ => trivial)
    (False.elim : _ → ∀ e ∈ init, e.Follows .lax d none [])).length_eq h

theorem length_incrementCode (h : incrementCode d increment = .ok code) :
    code.length = incrementSize increment :=
  (incrementCode_emits (O := .all) False.elim increment (fun _ _ => trivial)
    (False.elim : _ → ∀ e ∈ increment, e.Follows .lax d none [])).length_eq h

theorem Item.length_code (i : Item) (hc : c.Nested) (h : itemCode c n i = .ok code) :
    code.length = i.size c.unwind :=
  (itemCode_emits (O := .all) False.elim i hc (fun _ _ => trivial) (fun _ _ => trivial)
    (False.elim : _ → i.Follows .lax c.distances none false [])).length_eq h

theorem length_itemsCode (is : List Item) (hc : c.Nested) (h : itemsCode c n is = .ok code) :
    code.length = itemsSize c.unwind is :=
  (itemsCode_emits (O := .all) False.elim is hc (fun _ _ => trivial) (fun _ _ => trivial)
    (False.elim : _ → itemsFollow .lax c.distances none false [] is)).length_eq h

end

end Eleu

import Eleu.Library.Natives
import Eleu.Proofs.Outcome
import Mathlib.Order.Bounds.Basic

/-! # The string natives

    Positions and lengths count characters. A search gives the least or the greatest position at which
    a text stands in another (`Text.firstIndex?_best`, `Text.lastIndex?_best`), and an index is an
    integer from zero to the length of the text, whatever else it is refused as
    (`Store.indexArgument_eq`).

    The natives take parts of texts and subtract lengths. Beside them stand the same computations in which
    a part that is not there and a difference below zero have no result at all; they always have one,
    and it is the one that the native gives. `string_natives` has all of this. -/

namespace Eleu

namespace Text

variable {p t : List Char} {i : Nat}

/-- `p` stands in `t` at position `i`. -/
def StandsAt (p t : List Char) (i : Nat) : Prop := i + p.length ≤ t.length ∧ (t.drop i).take p.length = p

/-- The number that is wanted of a set, or none if the set is empty. -/
def Best (wanted : Set Nat → Nat → Prop) (A : Set Nat) : Option Nat → Prop
  | some i => wanted A i
  | none => A = ∅

/-- The part of a text between two positions, which must be there. -/
def slice? (cs : List Char) (first last : Nat) : Option (List Char) :=
  if first ≤ last ∧ last ≤ cs.length then some ((cs.drop first).take (last - first)) else none

/-- A difference, which must not be below zero. -/
def sub? (a b : Nat) : Option Nat := if b ≤ a then some (a - b) else none

/-- Whether the part of the text from `i` on, which must be there, begins with `p`. -/
def occursAt? (p t : List Char) (i : Nat) : Option Bool := (slice? t i t.length).map p.isPrefixOf

theorem slice?_eq {first last : Nat} (h : first ≤ last) (hlast : last ≤ t.length) :
    slice? t first last = some ((t.drop first).take (last - first)) := if_pos ⟨h, hlast⟩

theorem occursAt?_eq (h : i ≤ t.length) : occursAt? p t i = some (occursAt p t i) := by
  rw [occursAt?, slice?_eq h (Nat.le_refl _), Option.map_some, occursAt,
    List.take_of_length_le (by rw [List.length_drop])]

theorem occursAt_iff (h : i ≤ t.length) : occursAt p t i = true ↔ StandsAt p t i := by
  rw [occursAt, List.isPrefixOf_iff_prefix, List.prefix_iff_eq_take, StandsAt, eq_comm]
  refine ⟨fun heq => ⟨?_, heq⟩, fun hs => hs.2⟩
  have hlen := congrArg List.length heq
  rw [List.length_take, List.length_drop] at hlen
  omega

/-- A search with a check that may lack a result, but does not on this list. -/
theorem findM?_eq {l : List Nat} {f : Nat → Option Bool} {g : Nat → Bool} (h : ∀ i ∈ l, f i = some (g i)) :
    l.findM? f = some (l.find? g) := by
  induction l with
  | nil => rfl
  | cons i l ih =>
    obtain ⟨hi, hl⟩ := List.forall_mem_cons.1 h
    rw [List.findM?, hi, List.find?_cons, ih hl]
    cases g i <;> rfl

/-! ## Searching -/

theorem firstIndex?_best (p t : List Char) (start : Nat) :
    Best IsLeast {i | start ≤ i ∧ StandsAt p t i} (firstIndex? t p start) := by
  have hstands : ∀ i, StandsAt p t i → i < t.length - p.length + 1 := by
    rintro i ⟨hle, -⟩
    omega
  have hcheck : ∀ i, i < t.length - p.length + 1 →
      ((decide (start ≤ i) && occursAt p t i) = true ↔ start ≤ i ∧ StandsAt p t i) := by
    intro i hi
    rw [Bool.and_eq_true, decide_eq_true_eq, occursAt_iff (by omega)]
  cases hr : firstIndex? t p start with
  | none =>
    refine Set.eq_empty_of_forall_notMem fun i hi => ?_
    have hnot := List.find?_eq_none.1 hr i (List.mem_range.2 (hstands i hi.2))
    exact hnot ((hcheck i (hstands i hi.2)).2 hi)
  | some i =>
    obtain ⟨hi, hmem, hbefore⟩ := List.find?_range_eq_some.1 hr
    have hlt := List.mem_range.1 hmem
    refine ⟨(hcheck i hlt).1 hi, fun j hj => Nat.le_of_not_lt fun hji => ?_⟩
    have hnot := hbefore j hji
    rw [(hcheck j (Nat.lt_trans hji hlt)).2 hj] at hnot
    cases hnot

/-- A search downwards finds the greatest number. The induction is on how far up it starts. -/
theorem find?_range_reverse (f : Nat → Bool) (n : Nat) :
    Best IsGreatest {i | i < n ∧ f i = true} ((List.range n).reverse.find? f) := by
  induction n with
  | zero => exact Set.eq_empty_of_forall_notMem fun i hi => Nat.not_lt_zero i hi.1
  | succ n ih =>
    rw [List.range_succ, List.reverse_append, List.reverse_singleton, List.singleton_append, List.find?_cons]
    cases hn : f n with
    | true => exact ⟨⟨Nat.lt_succ_self n, hn⟩, fun i hi => Nat.le_of_lt_succ hi.1⟩
    | false =>
      have hsame : {i | i < n + 1 ∧ f i = true} = {i | i < n ∧ f i = true} := by
        ext i
        refine ⟨fun hi => ⟨Nat.lt_of_le_of_ne (Nat.le_of_lt_succ hi.1) ?_, hi.2⟩,
          fun hi => ⟨Nat.lt_succ_of_lt hi.1, hi.2⟩⟩
        rintro rfl
        cases hn.symm.trans hi.2
      rw [hsame]
      exact ih

theorem lastIndex?_best (p t : List Char) (start : Nat) :
    Best IsGreatest {i | i ≤ start ∧ StandsAt p t i} (lastIndex? t p start) := by
  rw [lastIndex?]
  split
  · next hlt =>
      refine Set.eq_empty_of_forall_notMem fun i hi => ?_
      have hle := hi.2.1
      omega
  · next hle =>
      have hsame : {i | i ≤ start ∧ StandsAt p t i}
          = {i | i < min start (t.length - p.length) + 1 ∧ occursAt p t i = true} := by
        ext i
        constructor
        · rintro ⟨hi, hs⟩
          have hs' := hs.1
          exact ⟨by omega, (occursAt_iff (by omega)).2 hs⟩
        · rintro ⟨hi, ho⟩
          exact ⟨by omega, (occursAt_iff (by omega)).1 ho⟩
      rw [hsame]
      exact find?_range_reverse _ _

/-! ## Searching in parts that must be there -/

/-- The first position from `start` on, each position looked at being one of the text. -/
def firstIndexChecked (t p : List Char) (start : Nat) : Option (Option Nat) :=
  ((List.range (t.length - p.length + 1)).filter fun i => decide (start ≤ i)).findM? (occursAt? p t)

/-- The last position up to `start`, each position looked at being one of the text. -/
def lastIndexChecked (t p : List Char) (start : Nat) : Option (Option Nat) :=
  if t.length < p.length then some none
  else do
    let room ← sub? t.length p.length
    (List.range (min start room + 1)).reverse.findM? (occursAt? p t)

theorem firstIndexChecked_eq (t p : List Char) (start : Nat) :
    firstIndexChecked t p start = some (firstIndex? t p start) := by
  rw [firstIndexChecked, findM?_eq fun i hi => occursAt?_eq ?_, List.find?_filter]
  · simp only [Bool.decide_and, Bool.decide_eq_true]
    rfl
  · have hlt := List.mem_range.1 (List.mem_filter.1 hi).1
    omega

theorem lastIndexChecked_eq (t p : List Char) (start : Nat) :
    lastIndexChecked t p start = some (lastIndex? t p start) := by
  rw [lastIndexChecked, lastIndex?]
  split
  · rfl
  · next hle =>
      rw [sub?, if_pos (Nat.le_of_not_lt hle), Option.bind_eq_bind, Option.bind_some,
        findM?_eq fun i hi => occursAt?_eq ?_]
      have hlt := List.mem_range.1 (List.mem_reverse.1 hi)
      omega

end Text

open Text (StandsAt Best slice? sub? firstIndexChecked lastIndexChecked)

/-! ## Indices -/

/-- The integer that a value is, if it is one. -/
def Value.toIndex? : Value → Option Int
  | .number n => n.toInt?
  | _ => none

/-- The value is the index `k`, and that is not beyond the limit. -/
def Value.IsIndex (x : Value) (limit k : Nat) : Prop := x.toIndex? = some (k : Int) ∧ k ≤ limit

/-- The argument is invalid. -/
def Refused {α : Type} (r : Except Cause α) : Prop := ∃ detail, r = .error (.invalidArgument detail)

theorem Refused.bind {α β : Type} {r : Except Cause α} (h : Refused r) (f : α → Except Cause β) :
    Refused (r >>= f) := by
  obtain ⟨detail, rfl⟩ := h
  exact ⟨detail, rfl⟩

namespace Store

variable (s : Store) (t p : String) (x y : Value)

theorem indexArgument_eq {name : String} {args : List Value} {i : Nat} {x : Value} (hx : args[i]? = some x)
    (limit : Nat) :
    (∀ k, x.IsIndex limit k → s.indexArgument name args i limit = .ok k)
      ∧ ((∀ k, ¬ x.IsIndex limit k) → Refused (s.indexArgument name args i limit)) := by
  have hint : s.intArgument name args i
      = x.toIndex?.elim (.error (s.wrongArgument name args i "an integer")) .ok := by
    rw [intArgument, argument, hx]
    cases x with
    | number n =>
      dsimp only [Value.toIndex?, Option.bind_some, Value.number?]
      cases n.toInt? <;> rfl
    | _ => rfl
  rw [indexArgument, hint]
  constructor
  · rintro k ⟨hk, hle⟩
    rw [hk]
    exact if_pos hle
  · intro hnot
    cases hk : x.toIndex? with
    | none => exact ⟨_, rfl⟩
    | some k =>
      cases k with
      | ofNat k => exact ⟨_, if_neg fun hle => hnot k ⟨hk, hle⟩⟩
      | negSucc k => exact ⟨_, rfl⟩

/-! ## Computations without a result -/

/-- `substr`, with parts and differences that must be there. -/
def substringChecked (args : List Value) : ExceptT Cause Option Value := do
  checkCount "substr" args 2 3
  let cs := (← s.stringArgument "substr" args 0).toList
  let start ← s.indexArgument "substr" args 1 cs.length
  let length ← if 2 < args.length then liftM (s.indexArgument "substr" args 2 cs.length)
    else liftM (sub? cs.length start)
  if cs.length < start + length then throw (invalidArgument "substr" "range exceeds the string")
  else return .string (String.ofList (← liftM (slice? cs start (start + length))))

/-- `indexOf`, with parts that must be there. -/
def indexOfChecked (args : List Value) : ExceptT Cause Option Value := do
  checkCount "indexOf" args 2 3
  let cs := (← s.stringArgument "indexOf" args 0).toList
  let pattern := (← s.stringArgument "indexOf" args 1).toList
  let start ← if 2 < args.length then liftM (s.indexArgument "indexOf" args 2 cs.length) else pure 0
  return position (← liftM (firstIndexChecked cs pattern start))

/-- `lastIndexOf`, with parts and differences that must be there. -/
def lastIndexOfChecked (args : List Value) : ExceptT Cause Option Value := do
  checkCount "lastIndexOf" args 2 3
  let cs := (← s.stringArgument "lastIndexOf" args 0).toList
  let pattern := (← s.stringArgument "lastIndexOf" args 1).toList
  let start ← if 2 < args.length then liftM (s.indexArgument "lastIndexOf" args 2 cs.length)
    else pure cs.length
  return position (← liftM (lastIndexChecked cs pattern start))

theorem checked_bind {α : Type} {x : Except Cause α} {f : α → ExceptT Cause Option Value}
    {g : α → Except Cause Value} (h : ∀ a, x = .ok a → f a = ExceptT.mk (some (g a))) :
    (liftM x >>= f) = ExceptT.mk (some (x >>= g)) := by
  cases x with
  | error c => rfl
  | ok a => exact h a rfl

theorem lift_some_bind {α : Type} {o : Option α} {a : α} (h : o = some a)
    (f : α → ExceptT Cause Option Value) : (liftM o >>= f) = f a := by
  rw [h]
  rfl

/-- An index that is found is one that was asked for. -/
theorem le_of_indexArgument {name : String} {args : List Value} {i limit k : Nat}
    (h : s.indexArgument name args i limit = .ok k) : k ≤ limit := by
  obtain ⟨n, -, h⟩ := Outcome.except_bind_eq_ok.1 h
  cases n with
  | ofNat n =>
    dsimp only at h
    split at h <;> cases h
    assumption
  | negSucc n => cases h

theorem substringChecked_eq (args : List Value) :
    s.substringChecked args = ExceptT.mk (some (s.substringNative args)) := by
  refine checked_bind fun _ _ => checked_bind fun t _ => checked_bind fun start hstart => ?_
  have hrest : sub? t.toList.length start = some (t.toList.length - start) :=
    if_pos (s.le_of_indexArgument hstart)
  dsimp only
  split
  on_goal 1 => refine checked_bind fun length _ => ?_
  on_goal 2 => rw [lift_some_bind hrest, Outcome.except_ok_bind]
  all_goals
    split
    · rfl
    · next hle =>
        rw [lift_some_bind (Text.slice?_eq (Nat.le_add_right ..) (Nat.le_of_not_lt hle)), Nat.add_sub_cancel_left]
        rfl

theorem indexOfChecked_eq (args : List Value) :
    s.indexOfChecked args = ExceptT.mk (some (s.indexOfNative args)) := by
  refine checked_bind fun _ _ => checked_bind fun t _ => checked_bind fun p _ => ?_
  dsimp only
  split
  on_goal 1 => refine checked_bind fun start _ => ?_
  all_goals simp only [Text.firstIndexChecked_eq]; rfl

theorem lastIndexOfChecked_eq (args : List Value) :
    s.lastIndexOfChecked args = ExceptT.mk (some (s.lastIndexOfNative args)) := by
  refine checked_bind fun _ _ => checked_bind fun t _ => checked_bind fun p _ => ?_
  dsimp only
  split
  on_goal 1 => refine checked_bind fun start _ => ?_
  all_goals simp only [Text.lastIndexChecked_eq]; rfl

/-! ## Parts of a text -/

theorem substringNative_eq : s.substringNative [.string t, x, y] = (do
    let a ← s.indexArgument "substr" [.string t, x, y] 1 t.toList.length
    let n ← s.indexArgument "substr" [.string t, x, y] 2 t.toList.length
    if t.toList.length < a + n then .error (invalidArgument "substr" "range exceeds the string")
    else .ok (.string (String.ofList ((t.toList.drop a).take n)))) := rfl

variable {t x y}

theorem substringNative_ok {a n : Nat} (hx : x.IsIndex t.toList.length a) (hy : y.IsIndex t.toList.length n)
    (hle : a + n ≤ t.toList.length) :
    s.substringNative [.string t, x, y] = .ok (.string (String.ofList ((t.toList.drop a).take n))) := by
  rw [substringNative_eq, (s.indexArgument_eq rfl _).1 a hx, Outcome.except_ok_bind,
    (s.indexArgument_eq rfl _).1 n hy]
  exact if_neg (Nat.not_lt.2 hle)

theorem substringNative_refused
    (h : ∀ a n, x.IsIndex t.toList.length a → y.IsIndex t.toList.length n → t.toList.length < a + n) :
    Refused (s.substringNative [.string t, x, y]) := by
  rw [substringNative_eq]
  by_cases hx : ∃ a, x.IsIndex t.toList.length a
  · obtain ⟨a, hx⟩ := hx
    rw [(s.indexArgument_eq rfl _).1 a hx, Outcome.except_ok_bind]
    by_cases hy : ∃ n, y.IsIndex t.toList.length n
    · obtain ⟨n, hy⟩ := hy
      rw [(s.indexArgument_eq rfl _).1 n hy]
      exact ⟨_, if_pos (h a n hx hy)⟩
    · exact ((s.indexArgument_eq rfl _).2 (not_exists.1 hy)).bind _
  · exact ((s.indexArgument_eq rfl _).2 (not_exists.1 hx)).bind _

/-- Without a length, the part goes to the end. -/
theorem substringNative_rest {a : Nat} (hx : x.IsIndex t.toList.length a) :
    s.substringNative [.string t, x] = .ok (.string (String.ofList (t.toList.drop a))) := by
  have heq : s.substringNative [.string t, x]
      = (s.indexArgument "substr" [.string t, x] 1 t.toList.length >>= fun a =>
        if t.toList.length < a + (t.toList.length - a) then
          .error (invalidArgument "substr" "range exceeds the string")
        else .ok (.string (String.ofList ((t.toList.drop a).take (t.toList.length - a))))) := rfl
  have hle := hx.2
  rw [heq, (s.indexArgument_eq rfl _).1 a hx, Outcome.except_ok_bind, if_neg (by omega),
    List.take_of_length_le (by rw [List.length_drop])]

theorem charAtNative_eq : s.charAtNative [.string t, x]
    = (s.indexArgument "charAt" [.string t, x] 1 t.toList.length >>= fun i =>
      t.toList[i]?.elim (.error (outOfRange "charAt" (toString i))) fun c => .ok (.string (String.ofList [c]))) := by
  refine congrArg (s.indexArgument "charAt" [.string t, x] 1 t.toList.length >>= ·) (funext fun i => ?_)
  cases t.toList[i]? <;> rfl

end Store

open Store (position)

/-- The string natives do what is asked of them. Wherever they succeed, the result is the text or the
    position that the words of the specification give; any other index is refused. -/
theorem string_natives (s : Store) (t p : String) (x y : Value) :
    (∀ k, x.IsIndex t.toList.length k →
      (∃ r, s.indexOfNative [.string t, .string p, x] = .ok (position r)
        ∧ Best IsLeast {i | k ≤ i ∧ StandsAt p.toList t.toList i} r)
      ∧ ∃ r, s.lastIndexOfNative [.string t, .string p, x] = .ok (position r)
        ∧ Best IsGreatest {i | i ≤ k ∧ StandsAt p.toList t.toList i} r)
    ∧ ((∀ k, ¬ x.IsIndex t.toList.length k) → Refused (s.indexOfNative [.string t, .string p, x])
      ∧ Refused (s.lastIndexOfNative [.string t, .string p, x]) ∧ Refused (s.substringNative [.string t, x]))
    ∧ (∃ r, s.indexOfNative [.string t, .string p] = .ok (position r)
      ∧ Best IsLeast {i | 0 ≤ i ∧ StandsAt p.toList t.toList i} r)
    ∧ (∃ r, s.lastIndexOfNative [.string t, .string p] = .ok (position r)
      ∧ Best IsGreatest {i | i ≤ t.toList.length ∧ StandsAt p.toList t.toList i} r)
    ∧ (∀ a n, x.IsIndex t.toList.length a → y.IsIndex t.toList.length n → a + n ≤ t.toList.length →
      ∃ u, s.substringNative [.string t, x, y] = .ok (.string u) ∧ u.toList.length = n
        ∧ u.toList = (t.toList.drop a).take n)
    ∧ ((∀ a n, x.IsIndex t.toList.length a → y.IsIndex t.toList.length n → t.toList.length < a + n) →
      Refused (s.substringNative [.string t, x, y]))
    ∧ (∀ a zero, x.IsIndex t.toList.length a → zero.IsIndex t.toList.length 0 →
      ∃ u w, s.substringNative [.string t, zero, x] = .ok (.string u)
        ∧ s.substringNative [.string t, x] = .ok (.string w) ∧ u ++ w = t)
    ∧ (∀ i one, x.IsIndex t.toList.length i → i < t.toList.length → one.toIndex? = some 1 →
      ∃ u, s.charAtNative [.string t, x] = .ok u ∧ s.substringNative [.string t, x, one] = .ok u)
    ∧ ((∀ i, x.IsIndex t.toList.length i → t.toList.length ≤ i) → Refused (s.charAtNative [.string t, x]))
    ∧ s.lengthNative [.string t] = .ok (.number (.ofNat t.toList.length))
    ∧ ∀ args, s.substringChecked args = some (s.substringNative args)
      ∧ s.indexOfChecked args = some (s.indexOfNative args)
      ∧ s.lastIndexOfChecked args = some (s.lastIndexOfNative args) := by
  have hindexOf : s.indexOfNative [.string t, .string p, x]
      = (s.indexArgument "indexOf" [.string t, .string p, x] 2 t.toList.length >>= fun k =>
        .ok (position (Text.firstIndex? t.toList p.toList k))) := rfl
  have hlastIndexOf : s.lastIndexOfNative [.string t, .string p, x]
      = (s.indexArgument "lastIndexOf" [.string t, .string p, x] 2 t.toList.length >>= fun k =>
        .ok (position (Text.lastIndex? t.toList p.toList k))) := rfl
  refine ⟨fun k hk => ?_, fun hnot => ?_, ⟨_, rfl, Text.firstIndex?_best _ _ 0⟩,
    ⟨_, rfl, Text.lastIndex?_best _ _ _⟩, fun a n hx hy hle => ?_, s.substringNative_refused,
    fun a zero hx hzero => ?_, fun i one hx hlt hone => ?_, fun hnot => ?_, rfl,
    fun args => ⟨s.substringChecked_eq args, s.indexOfChecked_eq args, s.lastIndexOfChecked_eq args⟩⟩
  · rw [hindexOf, hlastIndexOf, (s.indexArgument_eq rfl _).1 k hk, (s.indexArgument_eq rfl _).1 k hk]
    exact ⟨⟨_, rfl, Text.firstIndex?_best _ _ k⟩, _, rfl, Text.lastIndex?_best _ _ k⟩
  · rw [hindexOf, hlastIndexOf]
    exact ⟨((s.indexArgument_eq rfl _).2 hnot).bind _, ((s.indexArgument_eq rfl _).2 hnot).bind _,
      ((s.indexArgument_eq rfl _).2 hnot).bind _⟩
  · refine ⟨_, s.substringNative_ok hx hy hle, ?_, String.toList_ofList⟩
    rw [String.toList_ofList, List.length_take, List.length_drop]
    omega
  · refine ⟨_, _, s.substringNative_ok hzero hx (by rw [Nat.zero_add]; exact hx.2), s.substringNative_rest hx, ?_⟩
    rw [← String.ofList_append, List.drop_zero, List.take_append_drop, String.ofList_toList]
  · have hpart : (t.toList.drop i).take 1 = [t.toList[i]] := by
      rw [List.drop_eq_getElem_cons hlt]
      rfl
    refine ⟨_, ?_, s.substringNative_ok (n := 1) hx ⟨hone, by omega⟩ hlt⟩
    rw [s.charAtNative_eq, (s.indexArgument_eq rfl _).1 i hx, Outcome.except_ok_bind,
      List.getElem?_eq_getElem hlt, hpart]
    rfl
  · rw [s.charAtNative_eq]
    by_cases hx : ∃ i, x.IsIndex t.toList.length i
    · obtain ⟨i, hx⟩ := hx
      rw [(s.indexArgument_eq rfl _).1 i hx, Outcome.except_ok_bind, List.getElem?_eq_none (hnot i hx)]
      exact ⟨_, rfl⟩
    · exact ((s.indexArgument_eq rfl _).2 (not_exists.1 hx)).bind _

theorem string_natives_overlap :
    (Value.number .one).IsIndex "aaa".toList.length 1
      ∧ (∃ r, ({} : Store).lastIndexOfNative [.string "aaa", .string "aa", .number .one] = .ok (position r)
        ∧ Best IsGreatest {i | i ≤ 1 ∧ StandsAt "aa".toList "aaa".toList i} r)
      ∧ ∃ u, ({} : Store).substringNative [.string "aaa", .number .one, .number .one] = .ok (.string u)
        ∧ u.toList.length = 1 := by
  have hone : (Value.number .one).IsIndex "aaa".toList.length 1 := ⟨by decide, by decide⟩
  have h := string_natives {} "aaa" "aa" (.number .one) (.number .one)
  obtain ⟨u, hu, hlength, -⟩ := h.2.2.2.2.1 1 1 hone hone (by decide)
  exact ⟨hone, (h.1 1 hone).2, u, hu, hlength⟩

end Eleu

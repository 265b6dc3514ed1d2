import Eleu.Span
import Mathlib.Data.Prod.Lex
import Mathlib.Order.MinMax

/-! # The union of spans

    Positions are ordered as pairs of a line and a column (`Pos.le_iff_key`), and the union takes the first
    start and the last stop. A span is empty by its lines alone, so a span with one line zero takes part like
    any other: no law below asks that a span starts before it stops. -/

namespace Eleu

namespace Pos

/-- The line and the column as a pair in lexicographic order. -/
def key (p : Pos) : ℕ ×ₗ ℕ := toLex (p.line, p.col)

theorem le_iff_key {p q : Pos} : p ≤ q ↔ p.key ≤ q.key := by
  rw [key, key, Prod.Lex.toLex_le_toLex]
  rfl

theorem key_injective : Function.Injective key := by
  rintro ⟨line, col⟩ ⟨line', col'⟩ h
  cases h
  rfl

instance : LinearOrder Pos where
  le_refl _ := le_iff_key.2 le_rfl
  le_trans _ _ _ hpq hqr := le_iff_key.2 ((le_iff_key.1 hpq).trans (le_iff_key.1 hqr))
  le_antisymm _ _ hpq hqp := key_injective (le_antisymm (le_iff_key.1 hpq) (le_iff_key.1 hqp))
  le_total p q := (le_total p.key q.key).imp le_iff_key.2 le_iff_key.2
  toDecidableLE := inferInstance

theorem key_monotone : Monotone key := fun _ _ => le_iff_key.1

theorem line_le {p q : Pos} (h : p ≤ q) : p.line ≤ q.line := h.elim Nat.le_of_lt fun h => h.1.le

end Pos

namespace Span

variable {a b : Span}

theorem isEmpty_iff : a.isEmpty = true ↔ a.start.line = 0 ∧ a.stop.line = 0 := by simp [isEmpty]

theorem union_of_isEmpty (ha : a.isEmpty = true) (b : Span) : a.union b = b := if_pos ha

theorem union_isEmpty (ha : a.isEmpty = false) (hb : b.isEmpty = true) : a.union b = a := by
  rw [union, ha, hb]; rfl

theorem union_places (ha : a.isEmpty = false) (hb : b.isEmpty = false) :
    a.union b = ⟨a.file, min a.start b.start, max a.stop b.stop⟩ := by
  rw [union, ha, hb]; rfl

theorem union_self (a : Span) : a.union a = a := by
  cases ha : a.isEmpty with
  | true => exact union_of_isEmpty ha a
  | false => rw [union_places ha ha, min_self, max_self]

theorem isEmpty_union (ha : a.isEmpty = false) (hb : b.isEmpty = false) : (a.union b).isEmpty = false := by
  refine eq_false_of_ne_true fun h => ?_
  rw [union_places ha hb, isEmpty_iff] at h
  obtain ⟨hstart, hstop⟩ := h
  -- Both stops are on line zero, so neither start is, and the first start is one of them.
  have hastop := Nat.le_zero.1 (hstop ▸ Pos.line_le (le_max_left a.stop b.stop))
  have hbstop := Nat.le_zero.1 (hstop ▸ Pos.line_le (le_max_right a.stop b.stop))
  rcases min_choice a.start b.start with hmin | hmin
  · exact Bool.eq_false_iff.1 ha (isEmpty_iff.2 ⟨hmin ▸ hstart, hastop⟩)
  · exact Bool.eq_false_iff.1 hb (isEmpty_iff.2 ⟨hmin ▸ hstart, hbstop⟩)

theorem union_assoc (a b c : Span) : (a.union b).union c = a.union (b.union c) := by
  cases ha : a.isEmpty with
  | true => rw [union_of_isEmpty ha, union_of_isEmpty ha]
  | false =>
    cases hb : b.isEmpty with
    | true => rw [union_isEmpty ha hb, union_of_isEmpty hb]
    | false =>
      cases hc : c.isEmpty with
      | true => rw [union_isEmpty (isEmpty_union ha hb) hc, union_isEmpty hb hc]
      | false =>
        rw [union_places (isEmpty_union ha hb) hc, union_places ha (isEmpty_union hb hc),
          union_places ha hb, union_places hb hc, min_assoc, max_assoc]

/-- The span starts no later and stops no earlier than the other one. -/
def Covers (s a : Span) : Prop := s.start ≤ a.start ∧ a.stop ≤ s.stop

theorem covers_union (ha : a.isEmpty = false) (hb : b.isEmpty = false) (s : Span) :
    s.Covers (a.union b) ↔ s.Covers a ∧ s.Covers b := by
  rw [union_places ha hb]
  show s.start ≤ min a.start b.start ∧ max a.stop b.stop ≤ s.stop ↔ _
  rw [le_min_iff, max_le_iff, and_and_and_comm]
  rfl

theorem union_comm (ha : a.isEmpty = false) (hb : b.isEmpty = false) (hfile : a.file = b.file) :
    a.union b = b.union a := by
  rw [union_places ha hb, union_places hb ha, hfile, min_comm, max_comm]

end Span

/-- The union of spans is associative and least among the covers; empty spans are neutral. -/
theorem span_union_laws (a b c : Span) :
    a.union a = a
      ∧ (a.union b).union c = a.union (b.union c)
      ∧ (a.start.line = 0 ∧ a.stop.line = 0 → a.union b = b ∧ (b.isEmpty = false → b.union a = b))
      ∧ (a.isEmpty = false ∧ b.isEmpty = false →
        (a.union b).isEmpty = false
          ∧ (a.union b).start.key = min a.start.key b.start.key
          ∧ (a.union b).stop.key = max a.stop.key b.stop.key
          ∧ (∀ s : Span, s.Covers (a.union b) ↔ s.Covers a ∧ s.Covers b)
          ∧ (a.file = b.file → a.union b = b.union a)) := by
  refine ⟨a.union_self, a.union_assoc b c, fun ha => ?_, fun ⟨ha, hb⟩ => ⟨Span.isEmpty_union ha hb, ?_, ?_,
    Span.covers_union ha hb, Span.union_comm ha hb⟩⟩
  · have ha := Span.isEmpty_iff.2 ha
    exact ⟨Span.union_of_isEmpty ha b, fun hb => Span.union_isEmpty hb ha⟩
  · rw [Span.union_places ha hb]
    exact Pos.key_monotone.map_min
  · rw [Span.union_places ha hb]
    exact Pos.key_monotone.map_max

/-- Spans of which one line is zero, and an empty one with columns and a file of its own. -/
theorem span_union_laws_degenerate :
    let a : Span := ⟨"f", ⟨0, 7⟩, ⟨2, 1⟩⟩
    let b : Span := ⟨"f", ⟨3, 4⟩, ⟨0, 9⟩⟩
    let e : Span := ⟨"g", ⟨0, 5⟩, ⟨0, 3⟩⟩
    (a.isEmpty = false ∧ b.isEmpty = false) ∧ (e.start.line = 0 ∧ e.stop.line = 0)
      ∧ (a.union b).isEmpty = false ∧ a.union b = b.union a ∧ e.union a = a ∧ a.union e = a := by
  intro a b e
  have hplaces : a.isEmpty = false ∧ b.isEmpty = false := by decide
  have hempty : e.start.line = 0 ∧ e.stop.line = 0 := by decide
  obtain ⟨-, -, -, hlaws⟩ := span_union_laws a b e
  obtain ⟨-, -, hneutral, -⟩ := span_union_laws e a b
  exact ⟨hplaces, hempty, (hlaws hplaces).1, (hlaws hplaces).2.2.2.2 rfl, (hneutral hempty).1,
    (hneutral hempty).2 hplaces.1⟩

end Eleu

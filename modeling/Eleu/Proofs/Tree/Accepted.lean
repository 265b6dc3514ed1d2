import Eleu.Proofs.Tree.Modes
import Eleu.Proofs.Tree.Progress

/-! # Accepted texts

    A text is accepted only if the parser has read all of it and noted no error down. Both modes then
    end with the same items and the same cursor (`parseText_accepts`), so what was read is known from
    the mode that stops at errors (`parseText_taken`), and the ids are among those that the cursor has
    handed out. -/

namespace Eleu

variable {r : Recovery} {unit : Nat} {items : List Item}

theorem judge_eq_ok {found : List Item} {errors : List Diagnostic} (h : judge found errors = .ok items) :
    errors = [] ∧ found = items := by
  unfold judge at h
  cases hrev : errors.reverse with
  | nil =>
    rw [hrev] at h
    exact ⟨List.reverse_eq_nil_iff.1 hrev, Except.ok.inj h⟩
  | cons d ds =>
    obtain ⟨rest, hsqueeze⟩ := squeeze_cons d ds
    rw [hrev, hsqueeze] at h
    exact nomatch h

theorem withLexicalError_eq_nil {closing : Token} {errors : List Diagnostic}
    (h : withLexicalError r closing errors = []) : errors = [] := by
  unfold withLexicalError at h
  split at h
  · split at h
    · exact nomatch h
    · exact h
  · exact h

/-- The items of a token list are those that the parser ends with in both modes. -/
theorem parse_accepts {first : Token} {rest : List Token} (hterminated : Terminated (first :: rest))
    (h : parse r unit (first :: rest) = .ok items) :
    ∃ c, ∀ r', Parser.program r' unit (roundsFor (first :: rest)) (.start first rest) = .ok items c := by
  have hcoupled := Parser.Coupled.program unit (roundsFor (first :: rest)) (.start first rest)
  have hends := Parser.program_ends r unit (.start hterminated) (Nat.le_refl _)
  have hconclude : conclude r (Parser.program r unit (roundsFor (first :: rest)) (.start first rest))
      = .ok items := (parse_cons r unit first rest).symm.trans h
  cases hx : Parser.program r unit (roundsFor (first :: rest)) (.start first rest) with
  | error e c =>
    -- An error, on which a parser that stops ends, would be in the verdict.
    rw [hx] at hends hconclude
    obtain ⟨d, -, rfl, -⟩ := hends
    exact nomatch withLexicalError_eq_nil (judge_eq_ok hconclude).1
  | ok found c =>
    rw [hx] at hconclude
    obtain ⟨herrors, rfl⟩ := judge_eq_ok hconclude
    have hreported := withLexicalError_eq_nil herrors
    refine ⟨c, fun r' => ?_⟩
    cases r with
    | stop =>
      rw [hx] at hcoupled
      generalize hy : Parser.program .resume unit _ _ = y at hcoupled
      cases hcoupled with
      | same =>
        cases r' with
        | stop => exact hx
        | resume => exact hy
    | resume =>
      rw [hx] at hcoupled
      generalize hy : Parser.program .stop unit _ _ = y at hcoupled
      cases hcoupled with
      | same =>
        cases r' with
        | stop => exact hy
        | resume => exact hx
      | parted _ hfirst =>
        -- The error at which the other mode stops would have been noted down.
        have hnoted : _ <:+ c.reported := hfirst
        rw [hreported, List.suffix_nil] at hnoted
        exact nomatch hnoted

variable {file source : String}

theorem scan_terminated (file source : String) : Terminated (scan file source) :=
  (scanFrom_partition file [] source.toList (Nat.lt_succ_self _)).terminated

theorem parseText_accepts (h : parseText r unit file source = .ok items) :
    ∃ first rest c, scan file source = first :: rest
      ∧ ∀ r', Parser.program r' unit (roundsFor (first :: rest)) (.start first rest) = .ok items c := by
  have hterminated := scan_terminated file source
  obtain ⟨first, rest, hscan⟩ := List.exists_cons_of_ne_nil hterminated.nonempty
  rw [parseText, hscan] at h
  rw [hscan] at hterminated
  obtain ⟨c, hprogram⟩ := parse_accepts hterminated h
  exact ⟨first, rest, c, hscan, hprogram⟩

/-- The items of an accepted text were read from all its tokens but the closing one. -/
theorem parseText_taken (G : Gauge (scan file source)) (h : parseText r unit file source = .ok items) :
    ∃ first rest c, scan file source = first :: rest
      ∧ Parser.program r unit (roundsFor (first :: rest)) (.start first rest) = .ok items c
      ∧ Parser.ItemsTaken G unit 0 0 ((scan file source).length - 1) c.lastId items := by
  obtain ⟨first, rest, c, hscan, hprogram⟩ := parseText_accepts h
  have hstart : (Cursor.start first rest).At (scan file source) 0 := by
    rw [hscan]
    exact .start (hscan ▸ scan_terminated file source)
  have hmoves := Parser.program_moves G .stop unit (roundsFor (first :: rest)) 0 0 _ hstart rfl
  rw [hprogram .stop] at hmoves
  obtain ⟨j, -, -, hj, htaken⟩ := hmoves
  obtain rfl : j = (scan file source).length - 1 := by omega
  exact ⟨first, rest, c, hscan, hprogram r, htaken rfl⟩

theorem parseText_readFrom (G : Gauge (scan file source)) (h : parseText r unit file source = .ok items) :
    itemsReadFrom G items 0 ((scan file source).length - 1) := by
  obtain ⟨_, _, _, -, -, htaken⟩ := parseText_taken G h
  exact htaken.read

/-- Every declaration in a source text has the number of the text. -/
theorem parseText_ofUnit (h : parseText r unit file source = .ok items) :
    OfUnit unit (declarationsIn items) := by
  obtain ⟨_, _, _, -, -, htaken⟩ := parseText_taken (Gauge.any _) h
  exact htaken.ofUnit

/-- No two references or functions of an accepted text have the same id, and the ids are among those
    that were handed out. -/
theorem parseText_ids (h : parseText r unit file source = .ok items) :
    ∃ first rest c, scan file source = first :: rest
      ∧ Parser.program r unit (roundsFor (first :: rest)) (.start first rest) = .ok items c
      ∧ (itemsIds items).Nodup ∧ ∀ id ∈ itemsIds items, 1 ≤ id ∧ id ≤ c.lastId := by
  obtain ⟨first, rest, c, hscan, hprogram, htaken⟩ := parseText_taken (Gauge.any _) h
  exact ⟨first, rest, c, hscan, hprogram, htaken.ids.nodup, htaken.ids.bounds⟩

/-- A class with a parent. The id of its method is handed out after those in the body. -/
theorem parseText_ids_class : ∃ (items : List Item) (first : Token) (rest : List Token) (c : Cursor),
    parseText .resume 0 "" "class A < B { m(x) { x = this; return super.m(x); } } fun f() {}" = .ok items
      ∧ itemsIds items = [1, 6, 2, 3, 4, 5, 7]
      ∧ Parser.program .resume 0 (roundsFor (first :: rest)) (.start first rest) = .ok items c
      ∧ ∀ id ∈ itemsIds items, 1 ≤ id ∧ id ≤ c.lastId := by
  have hids : (parseText .resume 0 ""
      "class A < B { m(x) { x = this; return super.m(x); } } fun f() {}").toOption.map itemsIds
      = some [1, 6, 2, 3, 4, 5, 7] := by
    decide +kernel
  obtain ⟨items, hparse, hids⟩ := Option.map_eq_some_iff.1 hids
  have hparse := Outcome.toOption_eq_some.1 hparse
  obtain ⟨first, rest, c, -, hprogram, -, hbounds⟩ := parseText_ids hparse
  exact ⟨items, first, rest, c, hparse, hids, hprogram, hbounds⟩

end Eleu

/-! # Tables

    A finite map as a list of entries, at most one of which is seen for each key. What is written
    under a key replaces what stood there. -/

namespace Eleu

/-- A finite map from keys to values. -/
structure Table (κ α : Type) where
  entries : List (κ × α) := []

namespace Table

variable {κ α : Type} [DecidableEq κ]

/-- The table without entries. -/
def empty : Table κ α := {}

/-- The value in the first entry of `key`. -/
def find (key : κ) : List (κ × α) → Option α
  | [] => none
  | (k, a) :: rest => if k = key then some a else find key rest

/-- Replaces the first entry of `key`, or adds one at the end. -/
def put (key : κ) (value : α) : List (κ × α) → List (κ × α)
  | [] => [(key, value)]
  | (k, a) :: rest => if k = key then (k, value) :: rest else (k, a) :: put key value rest

/-- The value under `key`. -/
def get? (t : Table κ α) (key : κ) : Option α := find key t.entries

/-- Whether there is a value under `key`. -/
def contains (t : Table κ α) (key : κ) : Bool := (t.get? key).isSome

/-- The table with `value` under `key`. -/
def insert (t : Table κ α) (key : κ) (value : α) : Table κ α := ⟨put key value t.entries⟩

/-- The table `t` with all that `u` holds; `u` wins. -/
def union (t u : Table κ α) : Table κ α :=
  u.entries.foldl (fun t entry => t.insert entry.1 entry.2) t

@[simp] theorem get?_empty (key : κ) : (empty : Table κ α).get? key = none := rfl

/-- A written value is read back, and no other key is touched. -/
theorem find_put (key other : κ) (value : α) (entries : List (κ × α)) :
    find other (put key value entries) = if key = other then some value else find other entries := by
  induction entries with
  | nil => by_cases h : key = other <;> simp [put, find, h]
  | cons entry rest ih =>
    obtain ⟨k, a⟩ := entry
    by_cases hk : k = key
    · subst hk
      by_cases h : k = other <;> simp [put, find, h]
    · by_cases h : k = other
      · subst h
        simp [put, find, hk, Ne.symm hk]
      · simp [put, find, hk, h, ih]

@[simp] theorem get?_insert (t : Table κ α) (key other : κ) (value : α) :
    (t.insert key value).get? other = if key = other then some value else t.get? other :=
  find_put key other value t.entries

/-- No key has two entries. -/
def Unique (t : Table κ α) : Prop := t.entries.Pairwise fun a b => a.1 ≠ b.1

theorem mem_put {key : κ} {value : α} {entries : List (κ × α)} {entry : κ × α}
    (h : entry ∈ put key value entries) : entry.1 = key ∨ ∃ other ∈ entries, other.1 = entry.1 := by
  induction entries with
  | nil => exact .inl (by rw [List.mem_singleton.1 h])
  | cons first rest ih =>
    obtain ⟨k, a⟩ := first
    by_cases hk : k = key
    · rw [put, if_pos hk] at h
      cases h with
      | head => exact .inl hk
      | tail _ h => exact .inr ⟨entry, .tail _ h, rfl⟩
    · rw [put, if_neg hk] at h
      cases h with
      | head => exact .inr ⟨(k, a), .head _, rfl⟩
      | tail _ h =>
        rcases ih h with h | ⟨other, hother, heq⟩
        · exact .inl h
        · exact .inr ⟨other, .tail _ hother, heq⟩

theorem Unique.insert {t : Table κ α} (h : t.Unique) (key : κ) (value : α) :
    (t.insert key value).Unique := by
  show (put key value t.entries).Pairwise _
  have h : t.entries.Pairwise fun a b => a.1 ≠ b.1 := h
  generalize t.entries = entries at h
  induction entries with
  | nil => exact List.pairwise_singleton _ _
  | cons first rest ih =>
    obtain ⟨k, a⟩ := first
    obtain ⟨hfirst, hrest⟩ := List.pairwise_cons.1 h
    by_cases hk : k = key
    · rw [put, if_pos hk]
      exact List.pairwise_cons.2 ⟨hfirst, hrest⟩
    · rw [put, if_neg hk]
      refine List.pairwise_cons.2 ⟨fun entry hentry => ?_, ih hrest⟩
      rcases mem_put hentry with h | ⟨other, hother, heq⟩
      · rw [h]
        exact hk
      · rw [← heq]
        exact hfirst other hother

theorem find_eq_none {key : κ} {entries : List (κ × α)} (h : ∀ entry ∈ entries, key ≠ entry.1) :
    find key entries = none := by
  induction entries with
  | nil => rfl
  | cons first rest ih =>
    rw [find, if_neg (Ne.symm (h first (.head _)))]
    exact ih fun entry hentry => h entry (.tail _ hentry)

/-- In a union the second table wins. -/
theorem get?_union (t : Table κ α) {u : Table κ α} (h : u.Unique) (key : κ) :
    (t.union u).get? key = (u.get? key).or (t.get? key) := by
  have h : u.entries.Pairwise fun a b => a.1 ≠ b.1 := h
  show (u.entries.foldl (fun t entry => t.insert entry.1 entry.2) t).get? key
    = (find key u.entries).or (t.get? key)
  generalize u.entries = entries at h
  induction entries generalizing t with
  | nil => rfl
  | cons first rest ih =>
    obtain ⟨k, a⟩ := first
    obtain ⟨hfirst, hrest⟩ := List.pairwise_cons.1 h
    rw [List.foldl_cons, ih _ hrest, get?_insert, find]
    by_cases hk : k = key
    · rw [if_pos hk, if_pos hk, find_eq_none fun entry hentry => hk ▸ hfirst entry hentry]
      rfl
    · rw [if_neg hk, if_neg hk]

theorem put_of_new {key : κ} {value : α} {entries : List (κ × α)}
    (h : ∀ entry ∈ entries, entry.1 ≠ key) : put key value entries = entries ++ [(key, value)] := by
  induction entries with
  | nil => rfl
  | cons first rest ih =>
    obtain ⟨k, a⟩ := first
    rw [put, if_neg (h (k, a) (.head _)), ih fun entry hentry => h entry (.tail _ hentry)]
    rfl

/-- Written one by one into an empty table, the entries of a table make up that table. -/
theorem empty_union {u : Table κ α} (h : u.Unique) : ({} : Table κ α).union u = u := by
  have hwrite : ∀ (entries : List (κ × α)) (t : Table κ α), (t.entries ++ entries).Pairwise
      (fun a b => a.1 ≠ b.1) →
      entries.foldl (fun t entry => t.insert entry.1 entry.2) t = ⟨t.entries ++ entries⟩ := by
    intro entries
    induction entries with
    | nil => intro t _; rw [List.append_nil]; rfl
    | cons first rest ih =>
      intro t ht
      have hnew : (t.insert first.1 first.2).entries = t.entries ++ [first] :=
        put_of_new fun entry hentry => (List.pairwise_append.1 ht).2.2 entry hentry first (.head _)
      rw [List.foldl_cons, ih _ (by rw [hnew, List.append_assoc]; exact ht), hnew, List.append_assoc]
      rfl
  exact hwrite u.entries {} h

end Table

end Eleu

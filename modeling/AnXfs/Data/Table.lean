/-
Lists as tables: rows with a key, looked up, changed and deleted at the first row that has it. Where
no two rows share a key such a list is a finite map, and each operation is the operation of the map.
-/
import Mathlib.Tactic

namespace AnXfs.Data.Table

variable {α κ : Type} [DecidableEq κ] (key : α → κ)

/-- The first row of a key. -/
def lookup (k : κ) (l : List α) : Option α := l.find? fun x => key x = k

/-- The first row of a key, changed. -/
def modify (f : α → α) (k : κ) : List α → List α
  | [] => []
  | x :: l => if key x = k then f x :: l else x :: modify f k l

/-- The first row of a key, deleted. -/
def delete (k : κ) (l : List α) : List α := l.eraseP fun x => key x = k

variable {key}

/-! ## Lookup -/

theorem lookup_cons_self {k : κ} {x : α} (h : key x = k) (l : List α) : lookup key k (x :: l) = some x := by
  simp [lookup, h]

theorem lookup_cons_of_ne {k : κ} {x : α} (h : key x ≠ k) (l : List α) : lookup key k (x :: l) = lookup key k l := by
  simp [lookup, h]

theorem lookup_eq_none {k : κ} {l : List α} : lookup key k l = none ↔ ∀ x ∈ l, key x ≠ k := by
  simp [lookup]

theorem lookup_some {k : κ} {l : List α} {x : α} (h : lookup key k l = some x) : x ∈ l ∧ key x = k :=
  ⟨List.mem_of_find?_eq_some h, by simpa using List.find?_some h⟩

theorem lookup_isSome {k : κ} {l : List α} : (lookup key k l).isSome ↔ ∃ x ∈ l, key x = k := by
  simp [lookup]

/-- Where no two rows share a key, every row is found under its own. -/
theorem lookup_of_mem {l : List α} (hn : (l.map key).Nodup) {x : α} (hx : x ∈ l) : lookup key (key x) l = some x := by
  induction l with
  | nil => cases hx
  | cons y l ih =>
    rw [List.map_cons, List.nodup_cons] at hn
    rcases List.mem_cons.1 hx with rfl | hx
    · exact lookup_cons_self rfl l
    · have hne : key y ≠ key x := fun h => hn.1 (h ▸ List.mem_map_of_mem hx)
      rw [lookup_cons_of_ne hne]
      exact ih hn.2 hx

theorem lookup_append_of_ne {k : κ} {x : α} (h : key x ≠ k) (l : List α) :
    lookup key k (l ++ [x]) = lookup key k l := by
  simp [lookup, List.find?_append, h]

theorem lookup_append_self {k : κ} {l : List α} {x : α} (hx : key x = k) (h : ∀ y ∈ l, key y ≠ k) :
    lookup key k (l ++ [x]) = some x := by
  have hl : lookup key k l = none := lookup_eq_none.2 h
  unfold lookup at hl ⊢
  rw [List.find?_append, hl]
  simp [hx]

/-! ## Change -/

theorem modify_eq_self_iff {f : α → α} {k : κ} : ∀ {l : List α},
    modify key f k l = l ↔ ∀ x ∈ lookup key k l, f x = x
  | [] => by simp [modify, lookup]
  | y :: l => by
    unfold modify
    by_cases h : key y = k
    · rw [if_pos h, lookup_cons_self h]
      simp
    · rw [if_neg h, lookup_cons_of_ne h, List.cons.injEq]
      exact (and_iff_right rfl).trans modify_eq_self_iff

/-- A row of another key is an old row. -/
theorem mem_of_mem_modify {f : α → α} (hf : ∀ x, key (f x) = key x) {k : κ} {l : List α} {x : α}
    (hx : x ∈ modify key f k l) (h : key x ≠ k) : x ∈ l := by
  induction l with
  | nil => cases hx
  | cons y l ih =>
    unfold modify at hx
    by_cases hy : key y = k
    · rw [if_pos hy] at hx
      rcases List.mem_cons.1 hx with rfl | hx
      · exact absurd ((hf y).trans hy) h
      · exact List.mem_cons_of_mem _ hx
    · rw [if_neg hy] at hx
      rcases List.mem_cons.1 hx with rfl | hx
      · exact List.mem_cons_self ..
      · exact List.mem_cons_of_mem _ (ih hx)

theorem map_key_modify {f : α → α} (hf : ∀ x, key (f x) = key x) (k : κ) (l : List α) :
    (modify key f k l).map key = l.map key := by
  induction l with
  | nil => rfl
  | cons y l ih =>
    unfold modify
    split
    · simp [hf]
    · simp [ih]

theorem lookup_modify_self {f : α → α} (hf : ∀ x, key (f x) = key x) (k : κ) (l : List α) :
    lookup key k (modify key f k l) = (lookup key k l).map f := by
  induction l with
  | nil => rfl
  | cons y l ih =>
    unfold modify
    by_cases h : key y = k
    · rw [if_pos h, lookup_cons_self h, lookup_cons_self ((hf y).trans h)]
      rfl
    · rw [if_neg h, lookup_cons_of_ne h, lookup_cons_of_ne h, ih]

theorem lookup_modify_of_ne {f : α → α} (hf : ∀ x, key (f x) = key x) {k k' : κ} (h : k' ≠ k) (l : List α) :
    lookup key k' (modify key f k l) = lookup key k' l := by
  induction l with
  | nil => rfl
  | cons y l ih =>
    unfold modify
    by_cases hy : key y = k
    · have hne : key y ≠ k' := fun hk => h (hk.symm.trans hy)
      rw [if_pos hy, lookup_cons_of_ne hne, lookup_cons_of_ne (by rw [hf]; exact hne)]
    · rw [if_neg hy]
      by_cases hy' : key y = k'
      · rw [lookup_cons_self hy', lookup_cons_self hy']
      · rw [lookup_cons_of_ne hy', lookup_cons_of_ne hy', ih]

/-! ## Deletion -/

theorem map_key_delete_sublist (k : κ) (l : List α) : ((delete key k l).map key).Sublist (l.map key) :=
  List.eraseP_sublist.map key

/-- Deletion takes away no row of another key. -/
theorem count_delete_of_ne {k k' : κ} (h : k' ≠ k) (l : List α) :
    ((delete key k l).map key).count k' = (l.map key).count k' := by
  induction l with
  | nil => rfl
  | cons y l ih =>
    unfold delete at ih ⊢
    by_cases hy : key y = k
    · rw [List.eraseP_cons_of_pos (by simpa using hy), List.map_cons, List.count_cons_of_ne]
      exact fun hk => h (hk.symm.trans hy)
    · rw [List.eraseP_cons_of_neg (by simpa using hy), List.map_cons, List.map_cons, List.count_cons,
        List.count_cons, ih]

theorem lookup_delete_self {l : List α} (hn : (l.map key).Nodup) (k : κ) : lookup key k (delete key k l) = none := by
  induction l with
  | nil => rfl
  | cons y l ih =>
    rw [List.map_cons, List.nodup_cons] at hn
    unfold delete
    by_cases h : key y = k
    · rw [List.eraseP_cons_of_pos (by simpa using h), lookup_eq_none]
      intro x hx hk
      exact hn.1 (h ▸ hk ▸ List.mem_map_of_mem hx)
    · rw [List.eraseP_cons_of_neg (by simpa using h), lookup_cons_of_ne h]
      exact ih hn.2

theorem lookup_delete_of_ne {k k' : κ} (h : k' ≠ k) (l : List α) :
    lookup key k' (delete key k l) = lookup key k' l := by
  induction l with
  | nil => rfl
  | cons y l ih =>
    unfold delete at ih ⊢
    by_cases hy : key y = k
    · have hne : key y ≠ k' := fun hk => h (hk.symm.trans hy)
      rw [List.eraseP_cons_of_pos (by simpa using hy), lookup_cons_of_ne hne]
    · rw [List.eraseP_cons_of_neg (by simpa using hy)]
      by_cases hy' : key y = k'
      · rw [lookup_cons_self hy', lookup_cons_self hy']
      · rw [lookup_cons_of_ne hy', lookup_cons_of_ne hy', ih]

end AnXfs.Data.Table

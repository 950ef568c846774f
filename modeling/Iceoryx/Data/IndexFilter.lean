import Mathlib.Data.List.Nodup

/-!
# The slots that carry a mark

A container whose `n` slots each carry a mark keeps, for a mark, the slots that have it in
ascending order: `(List.range n).filter p`. This module splits that list at a slot `m` into the
marked slots below `m` (`below`) and above it (`above`), so that a change of the mark of `m`
alone is a change of the middle of the list; it says when `m` is below the head of the list,
which is how a container decides whether `m` becomes the new head; and it finds the nearest
marked slot below `m` the way a downward scan does (`lastBelow`), as the last slot of `below`.
-/

namespace IndexFilter

variable (p : ℕ → Bool)

/-- The marked slots below `m`, ascending. -/
def below (m : ℕ) : List ℕ :=
  (List.range m).filter p

/-- The marked slots strictly between `m` and `n`, ascending. -/
def above (m n : ℕ) : List ℕ :=
  (List.range' (m + 1) (n - (m + 1))).filter p

/-- A scan from `m - 1` down to `0` for the first marked slot. -/
def lastBelow : ℕ → Option ℕ
  | 0 => none
  | m + 1 => if p m then some m else lastBelow m

variable {p} {m n i : ℕ}

theorem range_eq_split (hm : m < n) :
    List.range n = List.range m ++ m :: List.range' (m + 1) (n - (m + 1)) := by
  have hsplit := @List.range'_append 0 m (n - m) 1
  rw [show m + (n - m) = n by omega, show n - m = n - (m + 1) + 1 by omega, List.range'_succ]
    at hsplit
  simpa [List.range_eq_range'] using hsplit.symm

/-- The marked slots below `n`, split at a marked slot `m`. -/
theorem filter_range_of_true (hm : m < n) (h : p m = true) :
    (List.range n).filter p = below p m ++ m :: above p m n := by
  rw [range_eq_split hm, List.filter_append, List.filter_cons, if_pos h]
  rfl

/-- The marked slots below `n`, split at an unmarked slot `m`. -/
theorem filter_range_of_false (hm : m < n) (h : p m = false) :
    (List.range n).filter p = below p m ++ above p m n := by
  rw [range_eq_split hm, List.filter_append, List.filter_cons, if_neg (by simp [h])]
  rfl

theorem lt_of_mem_below (hi : i ∈ below p m) : i < m :=
  List.mem_range.1 (List.mem_of_mem_filter hi)

theorem lt_of_mem_above (hi : i ∈ above p m n) : m < i ∧ i < n := by
  have := List.mem_range'_1.1 (List.mem_of_mem_filter hi)
  omega

theorem mem_filter_range : i ∈ (List.range n).filter p ↔ i < n ∧ p i = true := by
  rw [List.mem_filter, List.mem_range]

theorem pairwise_filter_range : ((List.range n).filter p).Pairwise (· < ·) :=
  List.pairwise_lt_range.filter p

theorem nodup_filter_range : ((List.range n).filter p).Nodup :=
  List.nodup_range.filter p

/-- Only the marks below `m` decide `below`. -/
theorem below_congr {q : ℕ → Bool} (h : ∀ i < m, q i = p i) : below q m = below p m :=
  List.filter_congr fun i hi ↦ h i (List.mem_range.1 hi)

/-- Only the marks above `m` decide `above`. -/
theorem above_congr {q : ℕ → Bool} (h : ∀ i, m < i → q i = p i) : above q m n = above p m n :=
  List.filter_congr fun i hi ↦ h i (by have := List.mem_range'_1.1 hi; omega)

/-- **Marking one more slot adds it to the marked slots**, up to order. Read backwards, unmarking
a slot takes it out. -/
theorem filter_range_perm_cons {q : ℕ → Bool} (hm : m < n) (hp : p m = false) (hq : q m = true)
    (heq : ∀ i, i ≠ m → q i = p i) :
    ((List.range n).filter q).Perm (m :: (List.range n).filter p) := by
  rw [filter_range_of_true hm hq, filter_range_of_false hm hp,
    below_congr fun i hi ↦ heq i (by omega), above_congr fun i hi ↦ heq i (by omega)]
  exact List.perm_middle

/-- **`m` is below the head** of the marked slots around it exactly when none is below `m`. -/
theorem lt_headD_iff (hm : m < n) : m < (below p m ++ above p m n).headD n ↔ below p m = [] := by
  constructor
  · intro hlt
    cases hb : below p m with
    | nil => rfl
    | cons x xs =>
      have hx : x < m := lt_of_mem_below (hb ▸ List.mem_cons_self)
      rw [hb, List.cons_append, List.headD_cons] at hlt
      omega
  · intro hb
    rw [hb, List.nil_append]
    cases ha : above p m n with
    | nil => exact hm
    | cons x xs => exact (lt_of_mem_above (ha ▸ List.mem_cons_self)).1

/-- **`m` is the head** of the marked slots around the marked slot `m` exactly when none is
below it. -/
theorem eq_headD_iff : m = (below p m ++ m :: above p m n).headD n ↔ below p m = [] := by
  constructor
  · intro hm
    cases hb : below p m with
    | nil => rfl
    | cons x xs =>
      have hx : x < m := lt_of_mem_below (hb ▸ List.mem_cons_self)
      rw [hb, List.cons_append, List.headD_cons] at hm
      omega
  · intro hb
    rw [hb, List.nil_append, List.headD_cons]

/-- The head of the marked slots is `m` exactly when none is below it. -/
theorem below_eq_nil_of_filter_range_eq_cons {rest : List ℕ} (hm : m < n)
    (h : (List.range n).filter p = m :: rest) : below p m = [] ∧ rest = above p m n := by
  have hpm : p m = true := (mem_filter_range.1 (h ▸ List.mem_cons_self)).2
  rw [filter_range_of_true hm hpm] at h
  cases hb : below p m with
  | nil =>
    rw [hb, List.nil_append, List.cons.injEq] at h
    exact ⟨rfl, h.2.symm⟩
  | cons x xs =>
    have hx : x < m := lt_of_mem_below (hb ▸ List.mem_cons_self)
    rw [hb, List.cons_append, List.cons.injEq] at h
    exact absurd h.1 (Nat.ne_of_lt hx)

/-- **The scan finds the last marked slot below `m`.** -/
theorem lastBelow_eq_getLast? : ∀ m, lastBelow p m = (below p m).getLast?
  | 0 => rfl
  | m + 1 => by
    rw [lastBelow, below, List.range_succ, List.filter_append]
    cases h : p m
    · rw [if_neg (by simp), List.filter_singleton, h, cond_false, List.append_nil,
        lastBelow_eq_getLast? m, below]
    · rw [if_pos rfl, List.filter_singleton, h, cond_true, List.getLast?_concat]

theorem lastBelow_eq_some {q : ℕ} (h : lastBelow p m = some q) : q < m ∧ p q = true := by
  rw [lastBelow_eq_getLast?] at h
  have hq := List.mem_of_getLast? h
  exact ⟨lt_of_mem_below hq, (List.mem_filter.1 hq).2⟩

/-! ### A prefix of the slots -/

/-- The slots below `m` that lie below `n ≤ m` are the slots below `n`. -/
theorem filter_range_lt (h : n ≤ m) :
    (List.range m).filter (fun k ↦ decide (k < n)) = List.range n := by
  rw [show m = n + (m - n) by omega, List.range_eq_range', ← List.range'_append,
    List.filter_append, List.filter_eq_self.2 fun k hk ↦ by simpa using (List.mem_range'_1.1 hk).2,
    List.filter_eq_nil_iff.2 fun k hk ↦ by simpa using (List.mem_range'_1.1 hk).1,
    List.append_nil, List.range_eq_range']

/-- The slots below `m` from `n ≤ m` on. -/
theorem filter_range_not_lt (h : n ≤ m) :
    (List.range m).filter (fun k ↦ !decide (k < n)) = List.range' n (m - n) := by
  rw [show m = n + (m - n) by omega, List.range_eq_range', ← List.range'_append,
    List.filter_append, List.filter_eq_nil_iff.2 fun k hk ↦ by simpa using (List.mem_range'_1.1 hk).2,
    List.filter_eq_self.2 fun k hk ↦ by simpa using (List.mem_range'_1.1 hk).1,
    List.nil_append, Nat.zero_add, Nat.one_mul, Nat.add_sub_cancel_left]

/-! ### Reading a list back by position -/

/-- Where `f` keeps every member, the `k`-th kept value is `f` of the `k`-th member. -/
theorem getElem?_filterMap_of_isSome {α β : Type*} {f : α → Option β} :
    ∀ {l : List α}, (∀ x ∈ l, (f x).isSome) → ∀ k : ℕ, (l.filterMap f)[k]? = (l[k]?).bind f
  | [], _, _ => rfl
  | x :: l, h, k => by
    obtain ⟨b, hb⟩ := Option.isSome_iff_exists.1 (h x List.mem_cons_self)
    rw [List.filterMap_cons_some hb]
    cases k with
    | zero => simp [hb]
    | succ k =>
      rw [List.getElem?_cons_succ, List.getElem?_cons_succ]
      exact getElem?_filterMap_of_isSome (fun y hy ↦ h y (List.mem_cons_of_mem x hy)) k

/-- Reading positions `0, …, n - 1` of a list no longer than `n` gives the list back. -/
theorem filterMap_range_getElem? {α : Type*} :
    ∀ (l : List α) {n : ℕ}, l.length ≤ n → (List.range n).filterMap (fun k : ℕ ↦ l[k]?) = l
  | [], n, _ => List.filterMap_eq_nil_iff.2 fun _ _ ↦ rfl
  | x :: l, n, hn => by
    obtain ⟨n, rfl⟩ : ∃ n', n = n' + 1 := ⟨n - 1, by simp at hn; omega⟩
    rw [List.range_succ_eq_map, List.filterMap_cons, List.filterMap_map]
    exact congrArg (x :: ·) (filterMap_range_getElem? l (by simpa using hn))

end IndexFilter

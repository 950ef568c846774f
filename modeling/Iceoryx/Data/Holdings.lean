import Mathlib

/-!
# References held in many places

A reference-counting system is sound when every counter equals the number of places that hold a
reference to its object. Those places are spread over the parts of the system (containers,
slots of fixed arrays, records kept in a list), and the references of the whole system are the
concatenation of the references of its parts. This module collects the facts that let a proof
follow that total through an update of one part, up to permutation, and nothing else:

* replacing one element of a list of parts replaces its share of the total
  (`flatMap_set_perm`);
* writing one slot of an array of optional references replaces that slot's reference
  (`filterMap_range_update_perm`);
* a list whose elements carry keys below `n` is as long as the sum of its key classes
  (`length_eq_sum_filter`), which is how a count over a whole system splits into counts per part,
  and a sum over a list is a sum over its positions (`sum_map_eq_sum_range`).

Permutation is the right equality here: a count of references does not see their order, and
every proof that uses these lemmas compares counts.
-/

namespace List

variable {α β : Type*} [DecidableEq β]

/-- **Replacing a part replaces its share**: setting the `i`-th part of `l` to `a` turns the
references of `l` into those of the new list, up to trading the old part's for the new one's. -/
theorem flatMap_set_perm (f : α → List β) :
    ∀ {l : List α} {i : ℕ} (hi : i < l.length) (a : α),
      ((l.set i a).flatMap f ++ f l[i]).Perm (l.flatMap f ++ f a)
  | x :: t, 0, _, a => by
    simp only [set_cons_zero, flatMap_cons, getElem_cons_zero]
    exact perm_iff_count.2 fun b ↦ by simp only [count_append]; omega
  | x :: t, i + 1, hi, a => by
    simp only [set_cons_succ, flatMap_cons, getElem_cons_succ, append_assoc]
    exact (flatMap_set_perm f (Nat.lt_of_succ_lt_succ hi) a).append_left (f x)

omit [DecidableEq β] in
/-- **A part's share**: the references of all parts are those of the parts other than `i`,
together with those of part `i`. -/
theorem flatMap_perm_eraseIdx (f : α → List β) :
    ∀ {l : List α} {i : ℕ} (hi : i < l.length), (l.flatMap f).Perm ((l.eraseIdx i).flatMap f ++ f l[i])
  | x :: t, 0, _ => by simpa using perm_append_comm
  | x :: t, i + 1, hi => by
    simpa using (flatMap_perm_eraseIdx f (Nat.lt_of_succ_lt_succ hi)).append_left (f x)

omit [DecidableEq β] in
/-- After part `i` is replaced by `a`, the references are those of the other parts and of `a`. -/
theorem flatMap_set_perm_eraseIdx (f : α → List β) {l : List α} {i : ℕ} (hi : i < l.length)
    (a : α) : ((l.set i a).flatMap f).Perm ((l.eraseIdx i).flatMap f ++ f a) := by
  have := flatMap_perm_eraseIdx f (l := l.set i a) (by simpa using hi)
  rwa [eraseIdx_set_eq, getElem_set_self] at this

/-- **Writing a slot replaces its reference**: the references stored in the slots `0, …, n - 1`
of an array of optional references, after slot `i < n` is overwritten with `v`, are the old ones
with the slot's old reference traded for `v`. -/
theorem filterMap_range_update_perm (d : ℕ → Option β) (v : Option β) :
    ∀ {n i : ℕ}, i < n →
      ((range n).filterMap (Function.update d i v) ++ (d i).toList).Perm
        ((range n).filterMap d ++ v.toList)
  | n + 1, i, hi => by
    have hlast : ∀ f : ℕ → Option β, [n].filterMap f = (f n).toList := fun f ↦ by
      cases h : f n <;> simp [h]
    rw [range_succ, filterMap_append, filterMap_append, hlast, hlast]
    by_cases hin : i = n
    · -- the last slot is the one written; the others are untouched
      subst hin
      have hrest : (range i).filterMap (Function.update d i v) = (range i).filterMap d :=
        filterMap_congr fun j hj ↦ by rw [Function.update_of_ne (Nat.ne_of_lt (mem_range.1 hj))]
      rw [hrest, Function.update_self]
      exact perm_iff_count.2 fun b ↦ by simp only [count_append]; omega
    · -- the last slot is not the one written: the induction hypothesis covers the others
      have ih := filterMap_range_update_perm d v (Nat.lt_of_le_of_ne (Nat.le_of_lt_succ hi) hin)
      rw [Function.update_of_ne (Ne.symm hin)]
      refine perm_iff_count.2 fun b ↦ ?_
      have hcount := ih.count_eq b
      simp only [count_append] at hcount ⊢
      omega

omit [DecidableEq β] in
/-- **Counting by classes**: a list whose keys are below `n` is as long as the sum, over the keys
`p < n`, of the number of its elements with key `p`. -/
theorem length_eq_sum_filter (key : α → ℕ) {n : ℕ} :
    ∀ {l : List α}, (∀ a ∈ l, key a < n) →
      l.length = ∑ p ∈ Finset.range n, (l.filter fun a ↦ key a = p).length
  | [], _ => by simp
  | a :: l, hl => by
    have ha : key a ∈ Finset.range n := Finset.mem_range.2 (hl a mem_cons_self)
    have ih := length_eq_sum_filter key fun b hb ↦ hl b (mem_cons_of_mem a hb)
    -- the new element lies in exactly one class
    have hsplit : ∀ p, ((a :: l).filter fun b ↦ key b = p).length =
        (if key a = p then 1 else 0) + (l.filter fun b ↦ key b = p).length := by
      intro p
      by_cases hp : key a = p <;> simp [hp, Nat.add_comm]
    rw [Finset.sum_congr rfl fun p _ ↦ hsplit p, Finset.sum_add_distrib, Finset.sum_ite_eq,
      if_pos ha, length_cons, ih, Nat.add_comm]

omit [DecidableEq β] in
/-- A sum over the elements of a list is a sum over its positions. -/
theorem sum_map_eq_sum_range (f : α → ℕ) :
    ∀ l : List α, (l.map f).sum = ∑ i ∈ Finset.range l.length, (l[i]?.map f).getD 0
  | [] => rfl
  | a :: l => by
    rw [map_cons, sum_cons, length_cons, Finset.sum_range_succ', sum_map_eq_sum_range f l]
    simp [Nat.add_comm]

end List

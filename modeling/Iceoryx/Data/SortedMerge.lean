import Mathlib

/-!
# Merging two ascending lists into one without repetition

Two lists that ascend strictly are merged by walking both from the front: the smaller head goes
first, and a head present in both goes once (`uniqueMerge`). The result holds exactly the elements
of either list (`mem_uniqueMerge`) and ascends strictly again (`pairwise_uniqueMerge`), so it
holds each of them once.

Nothing here is specific to indices: the order is any linear order.
-/

namespace SortedMerge

variable {α : Type*} [LinearOrder α]

/-- Merge `as` and `bs` from the front, the smaller head first and a common head once. -/
def uniqueMerge : List α → List α → List α
  | a :: as, b :: bs =>
    if a = b then a :: uniqueMerge as bs
    else if a < b then a :: uniqueMerge as (b :: bs)
    else b :: uniqueMerge (a :: as) bs
  | [], bs => bs
  | as, [] => as

@[simp] theorem uniqueMerge_nil_left (bs : List α) : uniqueMerge [] bs = bs := by
  cases bs <;> simp [uniqueMerge]

@[simp] theorem uniqueMerge_nil_right (as : List α) : uniqueMerge as [] = as := by
  cases as <;> simp [uniqueMerge]

/-- **The merge holds the elements of both lists.** -/
@[simp] theorem mem_uniqueMerge {x : α} {as bs : List α} :
    x ∈ uniqueMerge as bs ↔ x ∈ as ∨ x ∈ bs := by
  fun_induction uniqueMerge as bs with
  | case1 as b bs ih =>
    simp only [List.mem_cons, ih]
    tauto
  | case2 a as b bs _ _ ih =>
    simp only [List.mem_cons, ih]
    tauto
  | case3 a as b bs _ _ ih =>
    simp only [List.mem_cons, ih]
    tauto
  | case4 bs => simp
  | case5 as _ => simp

/-- **The merge of two strictly ascending lists ascends strictly.** -/
theorem pairwise_uniqueMerge {as bs : List α} (has : as.Pairwise (· < ·))
    (hbs : bs.Pairwise (· < ·)) : (uniqueMerge as bs).Pairwise (· < ·) := by
  fun_induction uniqueMerge as bs with
  | case1 as b bs ih =>
    rw [List.pairwise_cons] at has hbs ⊢
    -- the common head lies below both tails
    refine ⟨fun x hx ↦ ?_, ih has.2 hbs.2⟩
    rcases mem_uniqueMerge.1 hx with hx | hx
    · exact has.1 x hx
    · exact hbs.1 x hx
  | case2 a as b bs _ hlt ih =>
    have hbs' := hbs
    rw [List.pairwise_cons] at has hbs ⊢
    refine ⟨fun x hx ↦ ?_, ih has.2 hbs'⟩
    rcases mem_uniqueMerge.1 hx with hx | hx
    · exact has.1 x hx
    · rcases List.mem_cons.1 hx with rfl | hx
      · exact hlt
      · exact hlt.trans (hbs.1 x hx)
  | case3 a as b bs hne hnlt ih =>
    have hba : b < a := lt_of_le_of_ne (not_lt.1 hnlt) (Ne.symm hne)
    have has' := has
    rw [List.pairwise_cons] at has hbs ⊢
    refine ⟨fun x hx ↦ ?_, ih has' hbs.2⟩
    rcases mem_uniqueMerge.1 hx with hx | hx
    · rcases List.mem_cons.1 hx with rfl | hx
      · exact hba
      · exact hba.trans (has.1 x hx)
    · exact hbs.1 x hx
  | case4 bs => simpa using hbs
  | case5 as _ => simpa using has

end SortedMerge

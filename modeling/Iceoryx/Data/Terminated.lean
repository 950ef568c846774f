import Mathlib.Data.List.Basic

/-!
# Lists of entries, each ended by a separator

A list of entries is written as one list by following each entry with a separator
(`terminated`). A reader finds the entries again by searching for the separator, and this module
gives the facts such a reader rests on:

* searching finds the separator that ends the first entry (`idxOf?_append_cons`), and what it
  finds splits the list there (`idxOf?_eq_some_split`);
* the separators of a terminated list count its entries, when no entry holds one
  (`count_terminated`);
* a terminated list is empty or ends with the separator (`getLast?_terminated`), and every such
  list is written so, from entries that hold no separator (`exists_terminated`).

Nothing here knows which program writes or reads such lists.
-/

namespace Terminated

variable {α : Type*} {sep : α}

/-- The entries, each followed by the separator. -/
def terminated (sep : α) (es : List (List α)) : List α :=
  (es.map (· ++ [sep])).flatten

@[simp] theorem terminated_nil : terminated sep [] = [] :=
  rfl

@[simp] theorem terminated_cons (e : List α) (es : List (List α)) :
    terminated sep (e :: es) = e ++ sep :: terminated sep es := by
  simp [terminated]

/-- A terminated list is empty or ends with the separator. -/
theorem getLast?_terminated : ∀ {es : List (List α)},
    terminated sep es = [] ∨ (terminated sep es).getLast? = some sep
  | [] => Or.inl rfl
  | e :: es => by
    right
    rw [terminated_cons, List.getLast?_append, List.getLast?_cons]
    rcases (getLast?_terminated : terminated sep es = [] ∨ _) with h | h <;> simp [h]

variable [DecidableEq α]

/-- The search finds the first separator. -/
theorem idxOf?_append_cons {front : List α} (h : sep ∉ front) (back : List α) :
    (front ++ sep :: back).idxOf? sep = some front.length := by
  rw [List.idxOf?, List.findIdx?_append, List.findIdx?_cons]
  have hfront : front.findIdx? (· == sep) = none := by
    simpa [List.findIdx?_eq_none_iff] using fun x hx (heq : x = sep) ↦ h (heq ▸ hx)
  simp [hfront]

/-- What the search finds splits the list at its first separator. -/
theorem idxOf?_eq_some_split {s : List α} {pos : ℕ} (h : s.idxOf? sep = some pos) :
    s = s.take pos ++ sep :: s.drop (pos + 1) ∧ sep ∉ s.take pos := by
  obtain ⟨hpos, hc, hbefore⟩ := List.idxOf?_eq_some_iff.1 h
  constructor
  · conv_lhs => rw [← List.take_append_drop pos s, List.drop_eq_getElem_cons hpos, hc]
  · intro hmem
    obtain ⟨j, hj, hjc⟩ := List.mem_take_iff_getElem.1 hmem
    exact hbefore j (Nat.lt_of_lt_of_le hj (Nat.min_le_left _ _)) hjc

/-- **The separators count the entries.** -/
theorem count_terminated : ∀ {es : List (List α)}, (∀ e ∈ es, sep ∉ e) →
    (terminated sep es).count sep = es.length
  | [], _ => rfl
  | e :: es, h => by
    rw [terminated_cons, List.count_append, List.count_cons_self,
      List.count_eq_zero_of_not_mem (h e List.mem_cons_self),
      count_terminated fun e' he' ↦ h e' (List.mem_cons_of_mem e he'), List.length_cons,
      Nat.zero_add]

/-- **A list that is empty or ends with the separator is terminated**, from entries without
separator. By recursion on the list: a leading separator ends an empty entry, and any other first
element starts the first entry of the rest. -/
theorem exists_terminated : ∀ {s : List α}, (s = [] ∨ s.getLast? = some sep) →
    ∃ es : List (List α), (∀ e ∈ es, sep ∉ e) ∧ terminated sep es = s
  | [], _ => ⟨[], by simp, rfl⟩
  | c :: s, h => by
    have hne : c :: s ≠ [] := List.cons_ne_nil c s
    have hlast : (c :: s).getLast? = some sep := h.resolve_left hne
    -- what is left after the first element is empty or ends with the separator
    have hs : s = [] ∨ s.getLast? = some sep := by
      cases s with
      | nil => exact Or.inl rfl
      | cons d s => exact Or.inr (by rwa [List.getLast?_cons_cons] at hlast)
    obtain ⟨es, hes, rfl⟩ := exists_terminated hs
    by_cases hc : c = sep
    · subst hc
      exact ⟨[] :: es, by simpa using hes, by simp⟩
    · -- the first element starts the first entry, which the rest cannot lack
      cases es with
      | nil => simp [hc] at hlast
      | cons e es =>
        refine ⟨(c :: e) :: es, ?_, by simp⟩
        intro e' he'
        rcases List.mem_cons.1 he' with rfl | he'
        · exact List.not_mem_cons_of_ne_of_not_mem (Ne.symm hc) (hes e List.mem_cons_self)
        · exact hes e' (List.mem_cons_of_mem e he')

end Terminated

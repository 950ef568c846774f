import Mathlib.Data.List.Perm.Basic
import Iceoryx.Machine.Run

/-!
# The threads of an interleaving

A model of several threads keeps each thread's program counter in a list, indexed by thread, and
a step of thread `t` overwrites its entry (`List.set`). What the threads hold together, such as
the indices they are about to give back or the number of them at some point of a call, is a
`filterMap` or a `countP` over that list. One step changes it by what the thread's old and new
program counter contribute (`filterMap_set_perm`, `countP_set_add`).

A schedule whose choices all pass a guard keeps every property that the guarded steps keep
(`Scheduler.run_invariant_of_forall`): that is how a property is proved of the runs that avoid
some call.
-/

namespace Threads

variable {α β : Type*}

theorem filterMap_cons_eq (f : α → Option β) (x : α) (xs : List α) :
    (x :: xs).filterMap f = (f x).toList ++ xs.filterMap f := by
  cases hx : f x <;> simp [hx]

/-- **What the threads hold, after one thread moves**: the old program counter's contribution
is traded for the new one's. -/
theorem filterMap_set_perm (f : α → Option β) :
    ∀ {threads : List α} {t : ℕ} {pc : α} (pc' : α), threads[t]? = some pc →
      ((threads.set t pc').filterMap f ++ (f pc).toList).Perm
        (threads.filterMap f ++ (f pc').toList)
  | [], _, _, _, h => by simp at h
  | x :: xs, 0, pc, pc', h => by
    -- the moving thread is the head: its two contributions swap ends
    have hx : x = pc := by simpa using h
    subst hx
    simp only [List.set_cons_zero, filterMap_cons_eq, List.append_assoc]
    calc List.Perm ((f pc').toList ++ (xs.filterMap f ++ (f x).toList))
          ((xs.filterMap f ++ (f x).toList) ++ (f pc').toList) := List.perm_append_comm
      List.Perm _ (((f x).toList ++ xs.filterMap f) ++ (f pc').toList) :=
          List.perm_append_comm.append_right _
      _ = (f x).toList ++ (xs.filterMap f ++ (f pc').toList) := List.append_assoc _ _ _
  | x :: xs, t + 1, pc, pc', h => by
    simp only [List.set_cons_succ, filterMap_cons_eq, List.append_assoc]
    exact (filterMap_set_perm f pc' (by simpa using h)).append_left _

/-- **How many threads are at a point, after one thread moves.** -/
theorem countP_set_add {p : α → Bool} {threads : List α} {t : ℕ} {pc : α} (pc' : α)
    (h : threads[t]? = some pc) :
    (threads.set t pc').countP p + (if p pc then 1 else 0) =
      threads.countP p + (if p pc' then 1 else 0) := by
  obtain ⟨hlt, hget⟩ := List.getElem?_eq_some_iff.1 h
  rw [List.countP_set hlt, hget]
  have hle : (if p pc then 1 else 0) ≤ threads.countP p := by
    split_ifs with hp
    · exact List.countP_pos_iff.2 ⟨pc, hget ▸ List.getElem_mem hlt, hp⟩
    · exact Nat.zero_le _
  omega

end Threads

namespace Scheduler

variable {σ ω : Type*}

/-- **Invariant rule for guarded schedules**: a property that every enabled step of a choice
passing `ok` keeps holds after every schedule of such choices. -/
theorem run_invariant_of_forall {step : σ → ω → Option σ} {P : σ → Prop} {ok : ω → Prop}
    (hstep : ∀ s o s', P s → ok o → step s o = some s' → P s') :
    ∀ {s s' : σ} (os : List ω), P s → (∀ o ∈ os, ok o) → run step s os = some s' → P s'
  | _, _, [], hs, _, h => by
    cases h
    exact hs
  | _, _, o :: os, hs, hok, h => by
    obtain ⟨s₁, h₁, hrun⟩ := Option.bind_eq_some_iff.1 h
    exact run_invariant_of_forall hstep os (hstep _ o s₁ hs (hok o List.mem_cons_self) h₁)
      (fun o' ho' ↦ hok o' (List.mem_cons_of_mem o ho')) hrun

end Scheduler

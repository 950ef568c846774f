import Mathlib.Logic.Relation
import Mathlib.Data.Nat.Notation

/-!
# Runs of a deterministic machine, invariants and forward simulation

A sequential data structure is modelled as a **machine**: a state type, a type of operations, and
one step function that takes a state and an operation to the successor state and the operation's
observable result (a return value, an out-parameter, or both). Running a list of operations
threads the state and collects the results.

Two facts about runs are what the data-structure modules need, and both are proved here once:

* `Invariant.run`: a property that every admitted operation preserves holds after every run
  that starts in it (and `run_results`: a property of every admitted operation's result holds
  of every result of the run);
* `Simulation.run`: if a relation between a concrete and an abstract machine is kept by every
  admitted operation and related states return equal results, then related starting states give
  **equal result lists** on every run, and related final states. `SimulationWithin.run` is the
  same for a relation indexed by a budget that each operation spends part of: a machine whose
  counters wrap agrees with an unbounded one on every run too short to wrap them.

Operations carry a **guard** `ok`, read at the state where the operation is issued
(`Admits`). A guard is how a module states a caller obligation of the source (an index queue is
only pushed indices it handed out; a resize argument stays in its type), and nothing else: a
machine whose operations are all allowed uses the guard `fun _ _ ↦ True`.

The operations of the lock-free structures are **retry loops** (`do { ... } while (...)` around
a compare-exchange). Sequentially such a loop either leaves at some pass or goes round forever,
so it is modelled with fuel: `Loop.iterate` runs the body at most `fuel` times and answers `none`
when the fuel runs out. Its invariant rule is `Loop.iterate_invariant`, and that of a loop over a
list whose body can fail is `Loop.foldlM_invariant`. A loop whose body comes back to the state it started from never leaves,
whatever the fuel (`Loop.iterate_of_fixpoint`); that is how a hanging call is shown to hang.
The compare-exchange those loops retry is `compareExchange`, with the C++ contract: on a match
it stores the desired value, otherwise it reloads the expected one.

Interleavings of several threads are schedules (`Scheduler.run`): each choice is one atomic step
of one thread, and `none` when that step is not enabled. `Scheduler.run_invariant` is their
invariant rule, and `Scheduler.run_total` says when every schedule runs to its end.

Nothing here mentions a queue or a list: the modules for the index queue, the element queues and
the free list instantiate these definitions at their own states.
-/

/-- A deterministic machine with observable results: each operation takes a state to its
successor and returns a result. -/
structure Machine (σ ω ρ : Type*) where
  /-- One operation. -/
  step : σ → ω → σ × ρ

namespace Machine

variable {σ τ ω ρ : Type*}

/-- The run of a list of operations: the final state and the results, in order. -/
def run (M : Machine σ ω ρ) : σ → List ω → σ × List ρ
  | s, [] => (s, [])
  | s, o :: os => ((M.run (M.step s o).1 os).1, (M.step s o).2 :: (M.run (M.step s o).1 os).2)

@[simp] theorem run_nil (M : Machine σ ω ρ) (s : σ) : M.run s [] = (s, []) := rfl

@[simp] theorem run_cons (M : Machine σ ω ρ) (s : σ) (o : ω) (os : List ω) :
    M.run s (o :: os) =
      ((M.run (M.step s o).1 os).1, (M.step s o).2 :: (M.run (M.step s o).1 os).2) :=
  rfl

/-- A run of two lists in a row is the second run from where the first one ended. -/
theorem run_append (M : Machine σ ω ρ) (s : σ) (os os' : List ω) :
    M.run s (os ++ os') =
      ((M.run (M.run s os).1 os').1, (M.run s os).2 ++ (M.run (M.run s os).1 os').2) := by
  induction os generalizing s with
  | nil => rfl
  | cons o os ih =>
    rw [List.cons_append, run_cons, ih, run_cons]
    rfl

/-- Every operation of the list is admitted by `ok` at the state where it is issued. -/
def Admits (M : Machine σ ω ρ) (ok : σ → ω → Prop) : σ → List ω → Prop
  | _, [] => True
  | s, o :: os => ok s o ∧ M.Admits ok (M.step s o).1 os

@[simp] theorem admits_nil (M : Machine σ ω ρ) (ok : σ → ω → Prop) (s : σ) :
    M.Admits ok s [] :=
  trivial

@[simp] theorem admits_cons (M : Machine σ ω ρ) (ok : σ → ω → Prop) (s : σ) (o : ω)
    (os : List ω) : M.Admits ok s (o :: os) ↔ ok s o ∧ M.Admits ok (M.step s o).1 os :=
  Iff.rfl

/-- Every list is admitted by the guard that allows everything. -/
theorem admits_true (M : Machine σ ω ρ) : ∀ (s : σ) (os : List ω),
    M.Admits (fun _ _ ↦ True) s os
  | _, [] => trivial
  | _, _ :: os => ⟨trivial, M.admits_true _ os⟩

/-! ### Invariants -/

/-- `P` is an **invariant** of `M` on the operations admitted by `ok`. -/
def Invariant (M : Machine σ ω ρ) (ok : σ → ω → Prop) (P : σ → Prop) : Prop :=
  ∀ s o, P s → ok s o → P (M.step s o).1

/-- **An invariant holds after every admitted run** that starts in it. -/
theorem Invariant.run {M : Machine σ ω ρ} {ok : σ → ω → Prop} {P : σ → Prop}
    (h : M.Invariant ok P) : ∀ {s : σ} (os : List ω), P s → M.Admits ok s os → P (M.run s os).1
  | _, [], hs, _ => hs
  | s, o :: os, hs, ⟨ho, hos⟩ => Invariant.run h os (h s o hs ho) hos

/-- **A property of every result**: if every admitted operation returns a result with `Q`, so does
every operation of an admitted run. -/
theorem run_results {M : Machine σ ω ρ} {ok : σ → ω → Prop} {Q : ρ → Prop}
    (h : ∀ s o, ok s o → Q (M.step s o).2) :
    ∀ {s : σ} (os : List ω), M.Admits ok s os → ∀ r ∈ (M.run s os).2, Q r
  | _, [], _, _, hr => by cases hr
  | s, o :: os, ⟨ho, hos⟩, r, hr => by
    rw [run_cons, List.mem_cons] at hr
    rcases hr with rfl | hr
    · exact h s o ho
    · exact run_results h os hos r hr

/-! ### Forward simulation -/

/-- `R` is a **forward simulation** of the abstract machine `A` by the concrete machine `C` on
the operations that `ok` admits at the abstract state: from related states an admitted operation
returns the same result on both sides and leads to related states. -/
def Simulation (C : Machine σ ω ρ) (A : Machine τ ω ρ) (ok : τ → ω → Prop)
    (R : σ → τ → Prop) : Prop :=
  ∀ s t o, R s t → ok t o → (C.step s o).2 = (A.step t o).2 ∧ R (C.step s o).1 (A.step t o).1

/-- **A simulation extends to runs**: from related states, every run admitted on the abstract
side returns the same list of results on both machines and ends in related states. -/
theorem Simulation.run {C : Machine σ ω ρ} {A : Machine τ ω ρ} {ok : τ → ω → Prop}
    {R : σ → τ → Prop} (h : C.Simulation A ok R) :
    ∀ {s : σ} {t : τ} (os : List ω), R s t → A.Admits ok t os →
      (C.run s os).2 = (A.run t os).2 ∧ R (C.run s os).1 (A.run t os).1
  | _, _, [], hst, _ => ⟨rfl, hst⟩
  | s, t, o :: os, hst, ⟨ho, hos⟩ => by
    obtain ⟨hres, hnext⟩ := h s t o hst ho
    obtain ⟨hress, hfinal⟩ := Simulation.run h os hnext hos
    exact ⟨by rw [run_cons, run_cons, hres, hress], hfinal⟩

/-! ### Forward simulation within a budget -/

/-- The total cost of a list of operations. -/
def totalCost (cost : ω → ℕ) : List ω → ℕ
  | [] => 0
  | o :: os => cost o + totalCost cost os

/-- `R` is a **forward simulation within a budget**: `R n` relates states from which operations
of total cost `n` keep the concrete machine in its range (a counter that must not wrap, say); an
admitted operation from states related at `n` plus its cost returns the same result on both sides
and leads to states related at `n`. -/
def SimulationWithin (C : Machine σ ω ρ) (A : Machine τ ω ρ) (ok : τ → ω → Prop)
    (cost : ω → ℕ) (R : ℕ → σ → τ → Prop) : Prop :=
  ∀ n s t o, R (n + cost o) s t → ok t o →
    (C.step s o).2 = (A.step t o).2 ∧ R n (C.step s o).1 (A.step t o).1

/-- **A simulation within a budget extends to every run within it**: from states related at the
run's total cost, the two machines return the same results and end in related states. -/
theorem SimulationWithin.run {C : Machine σ ω ρ} {A : Machine τ ω ρ} {ok : τ → ω → Prop}
    {cost : ω → ℕ} {R : ℕ → σ → τ → Prop} (h : C.SimulationWithin A ok cost R) :
    ∀ {n : ℕ} {s : σ} {t : τ} (os : List ω), R (n + totalCost cost os) s t →
      A.Admits ok t os → (C.run s os).2 = (A.run t os).2 ∧ R n (C.run s os).1 (A.run t os).1
  | _, _, _, [], hst, _ => ⟨rfl, hst⟩
  | n, s, t, o :: os, hst, ⟨ho, hos⟩ => by
    -- the first operation spends its cost, the rest of the run the remainder
    have hsplit : n + totalCost cost (o :: os) = n + totalCost cost os + cost o := by
      rw [totalCost]
      omega
    rw [hsplit] at hst
    obtain ⟨hres, hnext⟩ := h _ s t o hst ho
    obtain ⟨hress, hfinal⟩ := SimulationWithin.run h os hnext hos
    exact ⟨by rw [run_cons, run_cons, hres, hress], hfinal⟩

end Machine

/-! ### Retry loops with fuel -/

namespace Loop

variable {σ ρ : Type*}

/-- Run a loop body at most `fuel` times: each pass goes round again from a new state (`inl`)
or leaves with a result (`inr`); `none` when the fuel runs out first. -/
def iterate (body : σ → σ ⊕ ρ) : ℕ → σ → Option ρ
  | 0, _ => none
  | fuel + 1, s =>
    match body s with
    | .inl s' => iterate body fuel s'
    | .inr r => some r

/-- A pass that leaves ends the loop. -/
theorem iterate_succ_of_inr {body : σ → σ ⊕ ρ} {s : σ} {r : ρ} (h : body s = .inr r)
    (fuel : ℕ) : iterate body (fuel + 1) s = some r := by
  simp [iterate, h]

/-- A pass that goes round spends one unit of fuel. -/
theorem iterate_succ_of_inl {body : σ → σ ⊕ ρ} {s s' : σ} (h : body s = .inl s')
    (fuel : ℕ) : iterate body (fuel + 1) s = iterate body fuel s' := by
  simp [iterate, h]

/-- **A pass that comes back to its own state never leaves**, whatever the fuel. -/
theorem iterate_of_fixpoint {body : σ → σ ⊕ ρ} {s : σ} (h : body s = .inl s) :
    ∀ fuel, iterate body fuel s = none
  | 0 => rfl
  | fuel + 1 => by
    rw [iterate, h]
    exact iterate_of_fixpoint h fuel

/-- **Invariant rule for retry loops**: if every pass from a state satisfying `P` goes round to a
state satisfying `P` or leaves with a result satisfying `Q`, then a loop that leaves leaves with
a result satisfying `Q`. -/
theorem iterate_invariant {body : σ → σ ⊕ ρ} {P : σ → Prop} {Q : ρ → Prop}
    (hbody : ∀ s, P s → (∀ s', body s = .inl s' → P s') ∧ ∀ r, body s = .inr r → Q r) :
    ∀ (fuel : ℕ) {s : σ} {r : ρ}, P s → iterate body fuel s = some r → Q r
  | 0, _, _, _, h => by cases h
  | fuel + 1, s, r, hs, h => by
    cases hb : body s with
    | inl s' =>
      rw [iterate_succ_of_inl hb] at h
      exact iterate_invariant hbody fuel ((hbody s hs).1 s' hb) h
    | inr r' =>
      rw [iterate_succ_of_inr hb] at h
      cases h
      exact (hbody s hs).2 _ hb

/-- **Invariant rule for a loop over a list** whose body can fail: if the body succeeds on every
element from every state satisfying `P`, and keeps `P`, so does the loop. -/
theorem foldlM_invariant {α : Type*} {f : σ → α → Option σ} {P : σ → Prop} :
    ∀ {l : List α}, (∀ s a, a ∈ l → P s → ∃ s', f s a = some s' ∧ P s') →
      ∀ {s : σ}, P s → ∃ s', l.foldlM f s = some s' ∧ P s'
  | [], _, s, hs => ⟨s, rfl, hs⟩
  | a :: l, hstep, s, hs => by
    obtain ⟨s₁, h₁, hs₁⟩ := hstep s a List.mem_cons_self hs
    obtain ⟨s₂, h₂, hs₂⟩ :=
      foldlM_invariant (l := l) (fun s b hb ↦ hstep s b (List.mem_cons_of_mem a hb)) hs₁
    exact ⟨s₂, by simp [h₁, h₂], hs₂⟩

end Loop

/-- `compare_exchange(expected, desired)` on an atomic holding `current`: on a match it stores
`desired`, otherwise it loads `current` into `expected`. Returns the atomic's new contents, the
new `expected`, and whether it succeeded. -/
def compareExchange {α : Type*} [DecidableEq α] (current expected desired : α) : α × α × Bool :=
  if current = expected then (desired, expected, true) else (current, current, false)

/-- A compare-exchange that expects what the atomic holds succeeds. -/
theorem compareExchange_self {α : Type*} [DecidableEq α] (a desired : α) :
    compareExchange a a desired = (desired, a, true) :=
  if_pos rfl

/-- A compare-exchange that expects something else fails and loads what the atomic holds. -/
theorem compareExchange_of_ne {α : Type*} [DecidableEq α] {current expected : α}
    (h : current ≠ expected) (desired : α) :
    compareExchange current expected desired = (current, current, false) :=
  if_neg h

/-! ### Interleavings under a scheduler -/

namespace Scheduler

variable {σ ω : Type*}

/-- Take the scheduler's choices one after another; `none` as soon as a choice is not enabled.
Each choice is one atomic step of one thread. -/
def run (step : σ → ω → Option σ) : σ → List ω → Option σ
  | s, [] => some s
  | s, o :: os => (step s o).bind fun s' ↦ run step s' os

/-- **Invariant rule for interleavings**: a property that every enabled step keeps holds after
every schedule. -/
theorem run_invariant {step : σ → ω → Option σ} {P : σ → Prop}
    (hstep : ∀ s o s', P s → step s o = some s' → P s') :
    ∀ {s s' : σ} (os : List ω), P s → run step s os = some s' → P s'
  | _, _, [], hs, h => by
    cases h
    exact hs
  | _, _, o :: os, hs, h => by
    obtain ⟨s₁, h₁, hrun⟩ := Option.bind_eq_some_iff.1 h
    exact run_invariant hstep os (hstep _ o s₁ hs h₁) hrun

/-- **Runs that never stop**: when every step from a state with `P` is enabled and keeps `P`,
every schedule runs to its end, in a state with `P`. -/
theorem run_total {step : σ → ω → Option σ} {P : σ → Prop}
    (hstep : ∀ s o, P s → ∃ s', step s o = some s' ∧ P s') :
    ∀ {s : σ} (os : List ω), P s → ∃ s', run step s os = some s' ∧ P s'
  | s, [], hs => ⟨s, rfl, hs⟩
  | s, o :: os, hs => by
    obtain ⟨s₁, h₁, hs₁⟩ := hstep s o hs
    obtain ⟨s', hrun, hs'⟩ := run_total hstep os hs₁
    exact ⟨s', by rw [run, h₁, Option.bind_some, hrun], hs'⟩

/-- **Where a schedule stops**: it runs to its end, or some choice is not enabled in the state
that the choices before it reach. -/
theorem run_eq_some_or_stops (step : σ → ω → Option σ) :
    ∀ (s : σ) (os : List ω), (∃ s', run step s os = some s') ∨
      ∃ pre o post s₁, os = pre ++ o :: post ∧ run step s pre = some s₁ ∧ step s₁ o = none
  | s, [] => .inl ⟨s, rfl⟩
  | s, o :: os => by
    cases h : step s o with
    | none => exact .inr ⟨[], o, os, s, rfl, rfl, h⟩
    | some s₁ =>
      rcases run_eq_some_or_stops step s₁ os with ⟨s', hrun⟩ | ⟨pre, o', post, s₂, rfl, hpre, hstop⟩
      · exact .inl ⟨s', by rw [run, h, Option.bind_some, hrun]⟩
      · exact .inr ⟨o :: pre, o', post, s₂, rfl, by rw [run, h, Option.bind_some, hpre], hstop⟩

/-- A schedule run after another. -/
theorem run_append (step : σ → ω → Option σ) (s : σ) (os os' : List ω) :
    run step s (os ++ os') = (run step s os).bind fun s' ↦ run step s' os' := by
  induction os generalizing s with
  | nil => rfl
  | cons o os ih =>
    simp only [List.cons_append, run, ih, Option.bind_assoc]

end Scheduler

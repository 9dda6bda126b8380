import Gocryptfs.Basic
import Mathlib.Data.List.Nodup
/-!
# `Gocryptfs.Schedule` — the orders in which goroutines' steps may run

The parallel driver starts goroutines and joins them before it returns.  Each
goroutine runs its own steps in program order; between goroutines anything
goes.  The code makes every step that touches shared state atomic — an update
under `mu`, a nonce drawn from the locked prefetcher — so a run of the driver
is a merge of the goroutines' step sequences, and every merge is a run.

`Interleaving ts σ` says that `σ` is such a merge of the sequences `ts`.  It is
the binary `Shuffle` folded over the goroutines: merging the first goroutine
into a merge of the others gives every merge of all of them, and each fact
about merges is then one induction over `Shuffle`.

A `Scheduler` picks one merge for every set of goroutines and carries the
proof that it is one, so "for every scheduler" in a theorem is "for every
interleaving of the workers".  For a fixed call, any one interleaving is what
`Scheduler.fixing` picks.
-/

namespace Gocryptfs

/-- `Shuffle l τ σ`: `σ` merges `l` and `τ`, keeping the order within each. -/
inductive Shuffle {α : Type} : List α → List α → List α → Prop
  | nil : Shuffle [] [] []
  | left {x : α} {l τ σ : List α} : Shuffle l τ σ → Shuffle (x :: l) τ (x :: σ)
  | right {x : α} {l τ σ : List α} : Shuffle l τ σ → Shuffle l (x :: τ) (x :: σ)

/-- `Interleaving ts σ`: `σ` is an order in which goroutines with the step
sequences `ts` may take their steps. -/
inductive Interleaving {α : Type} : List (List α) → List α → Prop
  | nil : Interleaving [] []
  | cons {t : List α} {ts : List (List α)} {τ σ : List α} :
      Interleaving ts τ → Shuffle t τ σ → Interleaving (t :: ts) σ

namespace Shuffle

variable {α : Type} {l τ σ : List α}

theorem perm (h : Shuffle l τ σ) : σ.Perm (l ++ τ) := by
  induction h with
  | nil => exact .nil
  | left _ ih => exact ih.cons _
  | right _ ih => exact (ih.cons _).trans List.perm_middle.symm

theorem append : ∀ l τ : List α, Shuffle l τ (l ++ τ)
  | [], [] => nil
  | [], _ :: τ => right (append [] τ)
  | _ :: l, τ => left (append l τ)

theorem eq_of_nil_right (h : Shuffle l [] σ) : σ = l := by
  generalize e : ([] : List α) = τ at h
  induction h with
  | nil => rfl
  | left _ ih => rw [ih e]
  | right => cases e

end Shuffle

namespace Interleaving

variable {α : Type} {ts : List (List α)} {σ : List α}

theorem perm (h : Interleaving ts σ) : σ.Perm ts.flatten := by
  induction h with
  | nil => exact .nil
  | cons _ hs ih => exact hs.perm.trans (List.Perm.append_left _ ih)

theorem flatten : ∀ ts : List (List α), Interleaving ts ts.flatten
  | [] => nil
  | t :: ts => cons (flatten ts) (Shuffle.append t ts.flatten)

theorem singleton_iff {l : List α} : Interleaving [l] σ ↔ σ = l := by
  constructor
  · rintro (_ | ⟨h, hs⟩)
    cases h
    exact hs.eq_of_nil_right
  · intro h
    simpa [h] using flatten [l]

theorem mem_iff (h : Interleaving ts σ) {x : α} : x ∈ σ ↔ x ∈ ts.flatten :=
  h.perm.mem_iff

end Interleaving

/-- A scheduler: for every set of goroutines (each given by the block indices
it visits, in order), one order in which their steps run. -/
structure Scheduler where
  pick : List (List Nat) → List Nat
  interleaves : ∀ ts, Interleaving ts (pick ts)

namespace Scheduler

/-- The scheduler that runs goroutines one after another, in start order. -/
def inOrder : Scheduler := ⟨List.flatten, Interleaving.flatten⟩

/-- The scheduler that runs the goroutines `ts₀` in the order `σ₀`, and any
others one after another. -/
def fixing (ts₀ : List (List Nat)) (σ₀ : List Nat) (h : Interleaving ts₀ σ₀) : Scheduler where
  pick ts := if ts = ts₀ then σ₀ else ts.flatten
  interleaves ts := by
    by_cases e : ts = ts₀
    · subst e; simpa using h
    · simpa [e] using Interleaving.flatten ts

theorem fixing_pick (ts₀ : List (List Nat)) (σ₀ : List Nat) (h : Interleaving ts₀ σ₀) :
    (fixing ts₀ σ₀ h).pick ts₀ = σ₀ := if_pos rfl

end Scheduler

/-! ## Lists of indices -/

theorem any_congr_mem {α : Type} {f g : α → Bool} :
    ∀ {l : List α}, (∀ a ∈ l, f a = g a) → l.any f = l.any g
  | [], _ => rfl
  | a :: l, h => by
    simp only [List.any_cons, h a (List.mem_cons_self a l),
      any_congr_mem fun x hx => h x (List.mem_cons_of_mem a hx)]

theorem any_eq_of_perm {σ τ : List Nat} (h : σ.Perm τ) (p : Nat → Bool) : σ.any p = τ.any p :=
  Bool.eq_iff_iff.mpr (by
    rw [List.any_eq_true, List.any_eq_true]
    exact exists_congr fun _ => and_congr_left' h.mem_iff)

theorem indexOf_cons_of_mem {i j : Nat} {τ : List Nat} (hi : i ∉ τ) (hj : j ∈ τ) :
    (i :: τ).indexOf j = τ.indexOf j + 1 :=
  List.indexOf_cons_ne τ fun h => hi (h ▸ hj)

/-- Run one atomic step per scheduled index, in the scheduled order; the
first panic or error ends the run. -/
def runSteps {S : Type} (step : Nat → S → Result S) : List Nat → S → Result S
  | [], s => .ok s
  | i :: σ, s => step i s >>= runSteps step σ

@[simp] theorem runSteps_nil {S : Type} (step : Nat → S → Result S) (s : S) :
    runSteps step [] s = .ok s := rfl

@[simp] theorem runSteps_cons {S : Type} (step : Nat → S → Result S) (i : Nat)
    (σ : List Nat) (s : S) :
    runSteps step (i :: σ) s = step i s >>= runSteps step σ := rfl

end Gocryptfs

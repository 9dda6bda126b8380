import Mathlib.Data.UInt
/-!
# `Gocryptfs.Basic` — byte strings, and the three ways a Go call ends

A Go function of this code base that returns `([]byte, error)` either returns
a value with a nil error, returns a non-nil error, or panics (`log.Panicf`,
an out-of-range slice, a panic inside the AEAD).  `Result` has one
constructor for each, and its `bind` is Go's

    x, err := f(...)
    if err != nil { return nil, err }

with a panic unwinding every caller.  An error is modelled by its text, since
that is all the code compares or prints.

A panic in any goroutine ends the whole process, so where the code fans out
to workers a panic anywhere makes the whole call `panic`, whatever the other
workers did; `Result` needs no more than this to say so.

Every `make` of a slice goes through Go's `makeslice`, which panics ("len out
of range", "cap out of range") when the slice would take more than `maxAlloc`
bytes, or has a negative length or capacity.  That is a panic of the code,
not running out of memory, so the models of `make` below take it.
-/

namespace Gocryptfs

/-- `maxAlloc` of Go's runtime on 64-bit Linux (`heapAddrBits = 48`): the
largest allocation, in bytes, that `makeslice` accepts. -/
def maxAlloc : Int := 2 ^ 48

/-- Go's `int` arithmetic on a 64-bit platform: the value wrapped into
`[-2^63, 2^63)`. -/
def goInt (x : Int) : Int := (x + 2 ^ 63) % 2 ^ 64 - 2 ^ 63

/-- A Go `[]byte`.  Whether a slice is `nil` matters in one place only, the
file ID, which is modelled as an `Option` there. -/
abbrev Bytes := List UInt8

/-- How a Go call ends: a value and a nil error, a non-nil error, or a panic. -/
inductive Result (α : Type) where
  | ok (v : α)
  | error (msg : String)
  | panic
  deriving DecidableEq, Repr

namespace Result

variable {α β : Type}

/-- `v, err := x; if err != nil { return nil, err }; f(v)`. -/
def bind : Result α → (α → Result β) → Result β
  | ok v, f => f v
  | error e, _ => error e
  | panic, _ => panic

instance : Monad Result where
  pure := ok
  bind := bind

@[simp] theorem pure_eq (v : α) : (pure v : Result α) = ok v := rfl

@[simp] theorem ok_bind (v : α) (f : α → Result β) : (ok v >>= f) = f v := rfl

@[simp] theorem error_bind (e : String) (f : α → Result β) : (error e >>= f) = error e := rfl

@[simp] theorem panic_bind (f : α → Result β) : (panic >>= f) = panic := rfl

instance : LawfulMonad Result :=
  LawfulMonad.mk' Result (fun x => by cases x <;> rfl) (fun _ _ => rfl)
    (fun x _ _ => by cases x <;> rfl)

@[simp] theorem map_ok (f : α → β) (v : α) : f <$> ok v = ok (f v) := rfl

@[simp] theorem map_error (f : α → β) (e : String) : f <$> (error e : Result α) = error e := rfl

@[simp] theorem map_panic (f : α → β) : f <$> (panic : Result α) = panic := rfl

/-- The error text of a call that failed, and nothing for one that returned
or panicked. -/
def errorMsg? : Result α → Option String
  | error e => some e
  | _ => none

/-- The value of a call that returned, and Go's `nil` (empty) otherwise. -/
def valueOr (d : α) : Result α → α
  | ok v => v
  | _ => d

@[simp] theorem errorMsg?_ok (v : α) : (ok v).errorMsg? = none := rfl

@[simp] theorem errorMsg?_error (e : String) : (error e : Result α).errorMsg? = some e := rfl

@[simp] theorem errorMsg?_panic : (panic : Result α).errorMsg? = none := rfl

/-- Whether a call panicked. -/
def isPanic : Result α → Bool
  | panic => true
  | _ => false

@[simp] theorem valueOr_ok (d v : α) : (ok v).valueOr d = v := rfl

@[simp] theorem isPanic_ok (v : α) : (ok v).isPanic = false := rfl

@[simp] theorem isPanic_error (e : String) : (error e : Result α).isPanic = false := rfl

@[simp] theorem isPanic_panic : (panic : Result α).isPanic = true := rfl

theorem mapM_of_ne_error {f : α → Result β} (hf : ∀ a e, f a ≠ error e) (d : β) :
    ∀ l : List α, l.mapM f =
      if l.any fun a => (f a).isPanic then panic else ok (l.map fun a => (f a).valueOr d)
  | [] => rfl
  | a :: l => by
    rw [List.mapM_cons, mapM_of_ne_error hf d l]
    cases h : f a with
    | ok v => by_cases hl : l.any fun a => (f a).isPanic <;> simp [hl, h]
    | error e => exact absurd h (hf a e)
    | panic => simp [h]

end Result

end Gocryptfs

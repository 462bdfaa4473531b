import Mathlib.Data.List.Basic

/-! A queue of bounded capacity as the list of what it holds, oldest first. A push into a full
queue and a pop from an empty one are refused. -/
namespace SkhuOS.Foundation

inductive FifoCall (α : Type*)
  | push (x : α)
  | pop

inductive FifoAnswer (α : Type*)
  | refused
  | pushed
  | popped (x : α)

variable {α : Type*}

def fifoStep (capacity : ℕ) : List α → FifoCall α → FifoAnswer α × List α
  | xs, .push x => if xs.length = capacity then (.refused, xs) else (.pushed, xs ++ [x])
  | [], .pop => (.refused, [])
  | x :: xs, .pop => (.popped x, xs)

/-- The answers in order, and what is held in the end. -/
def fifoRun (capacity : ℕ) : List α → List (FifoCall α) → List (FifoAnswer α) × List α
  | xs, [] => ([], xs)
  | xs, call :: calls =>
    let r := fifoStep capacity xs call
    let later := fifoRun capacity r.2 calls
    (r.1 :: later.1, later.2)

/-- The elements that were pushed and not refused. -/
def accepted : List (FifoCall α) → List (FifoAnswer α) → List α
  | .push x :: calls, .pushed :: answers => x :: accepted calls answers
  | _ :: calls, _ :: answers => accepted calls answers
  | _, _ => []

def delivered : List (FifoAnswer α) → List α
  | .popped x :: answers => x :: delivered answers
  | _ :: answers => delivered answers
  | [] => []

variable {capacity : ℕ} {xs : List α} {calls : List (FifoCall α)}

/-- What goes in comes out in the same order, each element once. -/
theorem fifoRun_order (capacity : ℕ) (xs : List α) (calls : List (FifoCall α)) :
    xs ++ accepted calls (fifoRun capacity xs calls).1 =
      delivered (fifoRun capacity xs calls).1 ++ (fifoRun capacity xs calls).2 := by
  induction calls generalizing xs with
  | nil => simp [fifoRun, accepted, delivered]
  | cons call calls ih =>
    cases call with
    | push x =>
      by_cases hfull : xs.length = capacity
      · simpa [fifoRun, fifoStep, hfull, accepted, delivered] using ih xs
      · simpa [fifoRun, fifoStep, hfull, accepted, delivered] using ih (xs ++ [x])
    | pop =>
      cases xs with
      | nil => simpa [fifoRun, fifoStep, accepted, delivered] using ih []
      | cons x xs => simpa [fifoRun, fifoStep, accepted, delivered] using ih xs

end SkhuOS.Foundation

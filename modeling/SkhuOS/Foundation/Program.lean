import Mathlib.Data.List.Basic

/-! Programs that put requests to their surroundings and go on with the answers. A program
is a tree with finite branches, so every way of answering comes to a return; what a program
does is told by the events of such a branch. -/
namespace SkhuOS.Foundation

/-- A computation of a value that makes requests; `Answer r` holds the answers to `r`. -/
inductive Program {Request : Type} (Answer : Request → Type) (α : Type) where
  | ret (x : α)
  | ask (r : Request) (rest : Answer r → Program Answer α)

/-- A request with its answer. -/
abbrev Event {Request : Type} (Answer : Request → Type) := Σ r, Answer r

namespace Program

variable {Request : Type} {Answer : Request → Type} {α β : Type}

def bind : Program Answer α → (α → Program Answer β) → Program Answer β
  | ret x, f => f x
  | ask r rest, f => ask r fun a => (rest a).bind f

instance : Monad (Program Answer) where
  pure := ret
  bind := bind

/-- The program that makes one request and returns the answer. -/
def request (r : Request) : Program Answer (Answer r) := ask r ret

@[simp] theorem pure_eq (x : α) : (pure x : Program Answer α) = ret x := rfl

@[simp] theorem ret_bind (x : α) (f : α → Program Answer β) : ret x >>= f = f x := rfl

@[simp] theorem ask_bind (r : Request) (rest : Answer r → Program Answer α)
    (f : α → Program Answer β) : ask r rest >>= f = ask r fun a => rest a >>= f := rfl

@[simp] theorem request_bind (r : Request) (f : Answer r → Program Answer β) :
    request r >>= f = ask r f := rfl

/-- Every branch ends with events and a value that satisfy `Q`. -/
def Every : Program Answer α → (List (Event Answer) → α → Prop) → Prop
  | ret x, Q => Q [] x
  | ask r rest, Q => ∀ a, (rest a).Every fun t x => Q (⟨r, a⟩ :: t) x

/-- Every request of the program satisfies `P`. -/
def Asks (P : Request → Prop) : Program Answer α → Prop
  | ret _ => True
  | ask r rest => P r ∧ ∀ a, (rest a).Asks P

/-- Every branch ends with the request `last`, and the requests before it satisfy `P`. -/
def Ends (P : Request → Prop) (last : Request) : Program Answer α → Prop
  | ret _ => False
  | ask r rest => (r = last ∧ ∀ a, ∃ x, rest a = ret x) ∨ (P r ∧ ∀ a, (rest a).Ends P last)

/-- Behind the events `t` the program `p` has come to `q`. -/
inductive After : Program Answer α → List (Event Answer) → Program Answer α → Prop
  | nil {p} : After p [] p
  | cons {r rest a t q} (h : After (rest a) t q) : After (ask r rest) (⟨r, a⟩ :: t) q

/-- The branch in which `device` answers, given the events so far. -/
def run (device : List (Event Answer) → ∀ r, Answer r) :
    List (Event Answer) → Program Answer α → List (Event Answer) × α
  | _, ret x => ([], x)
  | past, ask r rest =>
    let a := device past r
    let (t, x) := run device (past ++ [⟨r, a⟩]) (rest a)
    (⟨r, a⟩ :: t, x)

variable {p q : Program Answer α} {f : α → Program Answer β} {P : Request → Prop}
  {last : Request} {Q Q' : List (Event Answer) → α → Prop} {t : List (Event Answer)} {x : α}

@[simp] theorem every_ret : (ret x : Program Answer α).Every Q ↔ Q [] x := Iff.rfl

@[simp] theorem every_ask {r : Request} {rest : Answer r → Program Answer α} :
    (ask r rest).Every Q ↔ ∀ a, (rest a).Every fun t x => Q (⟨r, a⟩ :: t) x := Iff.rfl

theorem every_true : p.Every fun _ _ => True := by
  induction p with
  | ret x => trivial
  | ask r rest ih => exact fun a => ih a

theorem Every.mono (h : p.Every Q) (hQ : ∀ t x, Q t x → Q' t x) : p.Every Q' := by
  induction p generalizing Q Q' with
  | ret x => exact hQ _ _ h
  | ask r rest ih =>
    intro a
    exact ih a (h a) fun t x => hQ _ x

/-- The rule for sequences: what the first part leaves, the second takes on. -/
theorem Every.bind {Q : List (Event Answer) → β → Prop}
    (h : p.Every fun t x => (f x).Every fun t' y => Q (t ++ t') y) : (p >>= f).Every Q := by
  induction p generalizing Q with
  | ret x => exact h
  | ask r rest ih =>
    intro a
    exact ih a (h a)

theorem Every.and {R : List (Event Answer) → α → Prop} (h : p.Every Q) (h' : p.Every R) :
    p.Every fun t x => Q t x ∧ R t x := by
  induction p generalizing Q R with
  | ret x => exact ⟨h, h'⟩
  | ask r rest ih =>
    intro a
    exact ih a (h a) (h' a)

/-- What holds of every branch holds of the one that was taken. -/
theorem Every.returned (h : p.Every Q) (hafter : p.After t (ret x)) : Q t x := by
  generalize hq : ret x = q at hafter
  induction hafter generalizing Q with
  | nil =>
    subst hq
    exact h
  | cons hafter ih => exact ih (h _) hq

theorem Asks.bind (h : p.Asks P) (hf : ∀ x, (f x).Asks P) : (p >>= f).Asks P := by
  induction p with
  | ret x => exact hf x
  | ask r rest ih => exact ⟨h.1, fun a => ih a (h.2 a)⟩

theorem Asks.mono {P' : Request → Prop} (h : p.Asks P) (hP : ∀ r, P r → P' r) : p.Asks P' := by
  induction p with
  | ret x => trivial
  | ask r rest ih => exact ⟨hP r h.1, fun a => ih a (h.2 a)⟩

/-- The events are those of requests the program may make. -/
theorem Asks.every (h : p.Asks P) : p.Every fun t _ => ∀ e ∈ t, P e.1 := by
  induction p with
  | ret x => exact fun e he => absurd he List.not_mem_nil
  | ask r rest ih =>
    intro a
    refine (ih a (h.2 a)).mono fun t x ht e he => ?_
    rcases List.mem_cons.mp he with rfl | he
    · exact h.1
    · exact ht e he

theorem Ends.bind (h : p.Asks P) (hf : ∀ x, (f x).Ends P last) : (p >>= f).Ends P last := by
  induction p with
  | ret x => exact hf x
  | ask r rest ih => exact .inr ⟨h.1, fun a => ih a (h.2 a)⟩

/-- The program that closes with `last`. -/
theorem ends_last : (ask last fun _ => ret x : Program Answer α).Ends P last :=
  .inl ⟨rfl, fun _ => ⟨x, rfl⟩⟩

/-- One more request is answered. -/
theorem After.snoc {r : Request} {rest : Answer r → Program Answer α}
    (h : p.After t (ask r rest)) (a : Answer r) : p.After (t ++ [⟨r, a⟩]) (rest a) := by
  generalize hq : ask r rest = q at h
  induction h with
  | nil =>
    subst hq
    exact .cons .nil
  | cons h ih => exact .cons (ih hq)

/-- A device that always answers comes to a return. -/
theorem run_after (device : List (Event Answer) → ∀ r, Answer r) (past : List (Event Answer))
    (p : Program Answer α) : p.After (p.run device past).1 (ret (p.run device past).2) := by
  induction p generalizing past with
  | ret x => exact .nil
  | ask r rest ih => exact .cons (ih (device past r) (past ++ [⟨r, device past r⟩]))

end Program
end SkhuOS.Foundation

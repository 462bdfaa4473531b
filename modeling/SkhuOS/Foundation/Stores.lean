import Mathlib.Data.List.Basic

/-! Computations told store by store: besides the result and the state they leave, the states
before and behind each store. -/
namespace SkhuOS.Foundation

/-- A computation over states `σ`, with its stores in order. -/
def Stores (σ α : Type) := σ → (α × σ) × List (σ × σ)

namespace Stores

variable {σ α β : Type} {p : Stores σ α} {f : α → Stores σ β} {s : σ} {I : σ → Prop}
  {P : σ → σ → Prop}

def result (p : Stores σ α) (s : σ) : α := (p s).1.1

/-- The state the computation leaves. -/
def final (p : Stores σ α) (s : σ) : σ := (p s).1.2

/-- The states around each store. -/
def trace (p : Stores σ α) (s : σ) : List (σ × σ) := (p s).2

instance : Monad (Stores σ) where
  pure x s := ((x, s), [])
  bind p f s := ((f (p.result s) (p.final s)).1, p.trace s ++ (f (p.result s)).trace (p.final s))

def get : Stores σ σ := fun s => ((s, s), [])

def store (edit : σ → σ) : Stores σ Unit := fun s => (((), edit s), [(s, edit s)])

@[simp] theorem result_pure (x : α) : (pure x : Stores σ α).result s = x := rfl

@[simp] theorem result_bind : (p >>= f).result s = (f (p.result s)).result (p.final s) := rfl

@[simp] theorem result_get : (get : Stores σ σ).result s = s := rfl

@[simp] theorem final_pure (x : α) : (pure x : Stores σ α).final s = s := rfl

@[simp] theorem final_bind : (p >>= f).final s = (f (p.result s)).final (p.final s) := rfl

@[simp] theorem final_get : (get : Stores σ σ).final s = s := rfl

@[simp] theorem final_store (edit : σ → σ) : (store edit).final s = edit s := rfl

theorem final_ite {c : Prop} [Decidable c] {q : Stores σ α} :
    (if c then p else q).final s = if c then p.final s else q.final s := by
  split <;> rfl

@[simp] theorem trace_pure (x : α) : (pure x : Stores σ α).trace s = [] := rfl

@[simp] theorem trace_bind :
    (p >>= f).trace s = p.trace s ++ (f (p.result s)).trace (p.final s) := rfl

@[simp] theorem trace_get : (get : Stores σ σ).trace s = [] := rfl

@[simp] theorem trace_store (edit : σ → σ) : (store edit).trace s = [(s, edit s)] := rfl

/-- Every store of the computation satisfies `P`. -/
def Each (P : σ → σ → Prop) (p : Stores σ α) (s : σ) : Prop := ∀ e ∈ p.trace s, P e.1 e.2

theorem each_pure (x : α) : (pure x : Stores σ α).Each P s := by
  intro e he
  simp at he

theorem each_get : (get : Stores σ σ).Each P s := by
  intro e he
  simp at he

theorem each_store {edit : σ → σ} (h : P s (edit s)) : (store edit).Each P s := by
  intro e he
  rw [trace_store, List.mem_singleton] at he
  subst he
  exact h

/-- The rule for sequences. -/
theorem Each.bind (hp : p.Each P s) (hf : (f (p.result s)).Each P (p.final s)) :
    (p >>= f).Each P s := by
  intro e he
  rw [trace_bind, List.mem_append] at he
  rcases he with he | he
  · exact hp e he
  · exact hf e he

/-- Started where `I` holds, the computation keeps `I` at every store. -/
def Keeps (I : σ → Prop) (p : Stores σ α) : Prop :=
  ∀ s, I s → p.Each (fun t u => I t ∧ I u) s ∧ I (p.final s)

/-- Started where `I` holds, every store satisfies `P`. -/
def Under (I : σ → Prop) (P : σ → σ → Prop) (p : Stores σ α) : Prop := ∀ s, I s → p.Each P s

theorem Keeps.pure (x : α) : (pure x : Stores σ α).Keeps I := fun _ h => ⟨each_pure x, h⟩

theorem Keeps.get : (get : Stores σ σ).Keeps I := fun _ h => ⟨each_get, h⟩

theorem Keeps.store {edit : σ → σ} (h : ∀ s, I s → I (edit s)) : (store edit).Keeps I :=
  fun s hs => ⟨each_store ⟨hs, h s hs⟩, h s hs⟩

theorem Keeps.bind (hp : p.Keeps I) (hf : ∀ x, (f x).Keeps I) : (p >>= f).Keeps I := by
  intro s hs
  obtain ⟨heach, hfinal⟩ := hp s hs
  obtain ⟨heach', hfinal'⟩ := hf (p.result s) (p.final s) hfinal
  exact ⟨heach.bind heach', hfinal'⟩

theorem Keeps.ite {c : Prop} [Decidable c] {q : Stores σ α} (hp : p.Keeps I) (hq : q.Keeps I) :
    (if c then p else q).Keeps I := by
  split
  · exact hp
  · exact hq

theorem Keeps.under (hp : p.Keeps I) (h : ∀ t u, I t → I u → P t u) : p.Under I P := by
  intro s hs e he
  have hkept := (hp s hs).1 e he
  exact h _ _ hkept.1 hkept.2

/-- A part that keeps `I`, and behind it one that needs `I` only at its start. -/
theorem Keeps.under_bind (hp : p.Keeps I) (h : ∀ t u, I t → I u → P t u)
    (hf : ∀ x, (f x).Under I P) : (p >>= f).Under I P := by
  intro s hs
  exact (hp.under h s hs).bind (hf _ _ (hp s hs).2)

theorem Under.ite {c : Prop} [Decidable c] {q : Stores σ α} (hp : p.Under I P)
    (hq : q.Under I P) : (if c then p else q).Under I P := by
  split
  · exact hp
  · exact hq

/-- A computation that satisfies `P` wherever it starts. -/
theorem Under.of_each (h : ∀ s, p.Each P s) : p.Under I P := fun s _ => h s

/-- An opening store that satisfies `P` and establishes `I`. -/
theorem Under.opened (hp : p.Each P s) (hfinal : I (p.final s))
    (hf : (f (p.result s)).Under I P) : (p >>= f).Each P s :=
  hp.bind (hf _ hfinal)

end Stores
end SkhuOS.Foundation

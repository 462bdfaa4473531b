import Mathlib.Data.List.Basic

/-! Runs of a deterministic labelled transition system with their histories.
A run is restricted to the steps that meet a condition on the state before the
step and its label; an invariant of such runs needs one step lemma. -/
namespace SkhuOS.Foundation

variable {σ α : Type*}

/-- One step of a history: the state it left, its label and the state it reached. -/
structure Move (σ α : Type*) where
  before : σ
  label : α
  after : σ

/-- Runs from `s`, all of whose steps meet `ok`, with the moves in order. -/
inductive Run (step : σ → α → Option σ) (ok : σ → α → Prop) (s : σ) :
    List (Move σ α) → σ → Prop
  | start : Run step ok s [] s
  | next {history t a u} (run : Run step ok s history t) (hok : ok t a)
      (hstep : step t a = some u) : Run step ok s (history ++ [⟨t, a, u⟩]) u

/-- The condition every step of an unrestricted run meets. -/
def anyStep : σ → α → Prop := fun _ _ => True

variable {step : σ → α → Option σ} {ok ok' : σ → α → Prop} {s t : σ}
  {history : List (Move σ α)}

/-- What the start satisfies and every admitted step preserves holds at the end. -/
theorem Run.invariant {P : σ → Prop} (hrun : Run step ok s history t) (hs : P s)
    (hstep : ∀ t a u, P t → ok t a → step t a = some u → P u) : P t := by
  induction hrun with
  | start => exact hs
  | next _ hok h ih => exact hstep _ _ _ ih hok h

/-- The same rule for a property of the state and of the moves that led to it. -/
theorem Run.history_invariant {P : List (Move σ α) → σ → Prop}
    (hrun : Run step ok s history t) (hs : P [] s)
    (hstep : ∀ past t a u, Run step ok s past t → P past t → ok t a →
      step t a = some u → P (past ++ [⟨t, a, u⟩]) u) : P history t := by
  induction hrun with
  | start => exact hs
  | next hrun hok h ih => exact hstep _ _ _ _ hrun ih hok h

/-- Such a property also holds before every move of the run. -/
theorem Run.invariant_moves {P : σ → Prop} (hrun : Run step ok s history t) (hs : P s)
    (hstep : ∀ t a u, P t → ok t a → step t a = some u → P u) :
    (∀ m ∈ history, P m.before) ∧ P t := by
  refine hrun.history_invariant (P := fun past t => (∀ m ∈ past, P m.before) ∧ P t)
    ⟨by simp, hs⟩ ?_
  rintro past t a u - ⟨hbefore, ht⟩ hok h
  refine ⟨fun m hm => ?_, hstep t a u ht hok h⟩
  rcases List.mem_append.mp hm with hm | hm
  · exact hbefore m hm
  · rw [List.mem_singleton.mp hm]
    exact ht

/-- A weaker condition on the steps admits at least the same runs. -/
theorem Run.mono (hrun : Run step ok s history t) (hok : ∀ t a, ok t a → ok' t a) :
    Run step ok' s history t := by
  induction hrun with
  | start => exact .start
  | next _ h hstep ih => exact .next ih (hok _ _ h) hstep

theorem Run.trans (hrun : Run step ok s history t) {later : List (Move σ α)} {u : σ}
    (hlater : Run step ok t later u) : Run step ok s (history ++ later) u := by
  induction hlater with
  | start => simpa using hrun
  | next _ hok hstep ih =>
    rw [← List.append_assoc]
    exact ih.next hok hstep

/-- Every move of a run is an admitted step. -/
theorem Run.move_mem (hrun : Run step ok s history t) {m : Move σ α} (hm : m ∈ history) :
    ok m.before m.label ∧ step m.before m.label = some m.after := by
  induction hrun with
  | start => simp at hm
  | next _ hok hstep ih =>
    rcases List.mem_append.mp hm with hm | hm
    · exact ih hm
    · rw [List.mem_singleton.mp hm]
      exact ⟨hok, hstep⟩

/-- Numbers handed out behind a cursor that never goes back are handed out in order. -/
theorem Run.increasing {cursor : σ → ℕ} {handed : σ → α → ℕ → Prop}
    (hrun : Run step ok s history t)
    (hcursor : ∀ m ∈ history, cursor m.before ≤ cursor m.after ∧
      ∀ n, handed m.before m.label n → cursor m.before ≤ n ∧ n < cursor m.after) :
    history.Pairwise (fun m m' => ∀ n n', handed m.before m.label n →
      handed m'.before m'.label n' → n < n') ∧
      ∀ m ∈ history, ∀ n, handed m.before m.label n → n < cursor t := by
  induction hrun with
  | start => exact ⟨.nil, fun m hm => absurd hm List.not_mem_nil⟩
  | @next history t a u _ _ _ ih =>
    obtain ⟨hpairs, hbelow⟩ := ih fun m hm => hcursor m (List.mem_append_left _ hm)
    have hlast : ⟨t, a, u⟩ ∈ history ++ [(⟨t, a, u⟩ : Move σ α)] :=
      List.mem_append_right _ (List.mem_singleton_self _)
    obtain ⟨hgrows, hhanded⟩ := hcursor ⟨t, a, u⟩ hlast
    constructor
    · rw [List.pairwise_append]
      refine ⟨hpairs, List.pairwise_singleton _ _, fun m hm m' hm' n n' hn hn' => ?_⟩
      rw [List.mem_singleton.mp hm'] at hn'
      exact Nat.lt_of_lt_of_le (hbelow m hm n hn) (hhanded n' hn').1
    · intro m hm n hn
      rcases List.mem_append.mp hm with hm | hm
      · exact Nat.lt_of_lt_of_le (hbelow m hm n hn) hgrows
      · rw [List.mem_singleton.mp hm] at hn
        exact (hhanded n hn).2

/-- Follow a list of labels, stopping where one of them is not enabled. -/
def follow (step : σ → α → Option σ) : σ → List α → Option σ
  | s, [] => some s
  | s, a :: as => (step s a).bind fun t => follow step t as

theorem follow_append (as bs : List α) : follow step s (as ++ bs) =
    (follow step s as).bind fun t => follow step t bs := by
  induction as generalizing s with
  | nil => rfl
  | cons a as ih => simp [follow, ih, Option.bind_assoc]

/-- Repeating a label, with an invariant that counts the repetitions. -/
theorem follow_replicate {P : ℕ → σ → Prop} {a : α} {n : ℕ} (hs : P 0 s)
    (hstep : ∀ i t, i < n → P i t → ∃ u, step t a = some u ∧ P (i + 1) u) :
    ∃ t, follow step s (List.replicate n a) = some t ∧ P n t := by
  induction n with
  | zero => exact ⟨s, rfl, hs⟩
  | succ n ih =>
    obtain ⟨t, ht, hp⟩ := ih fun i t hi => hstep i t (by omega)
    obtain ⟨u, hu, hq⟩ := hstep n t (by omega) hp
    refine ⟨u, ?_, hq⟩
    rw [List.replicate_succ', follow_append, ht, Option.bind_some, follow, hu]
    rfl

/-- The moves of following a list of labels, and the state they lead to. -/
def trace (step : σ → α → Option σ) : σ → List α → List (Move σ α)
  | _, [] => []
  | s, a :: as =>
    match step s a with
    | none => []
    | some t => ⟨s, a, t⟩ :: trace step t as

def reached (step : σ → α → Option σ) (s : σ) (labels : List α) : σ :=
  (follow step s labels).getD s

/-- Labels that can be followed make a run, where its moves are admitted. -/
theorem run_trace {labels : List α} (h : (Foundation.follow step s labels).isSome)
    (hok : ∀ m ∈ trace step s labels, ok m.before m.label) :
    Run step ok s (trace step s labels) (reached step s labels) := by
  induction labels generalizing s with
  | nil => exact .start
  | cons a as ih =>
    cases hu : step s a with
    | none => simp [Foundation.follow, hu] at h
    | some u =>
      have hfollow : Foundation.follow step s (a :: as) = Foundation.follow step u as := by
        rw [Foundation.follow, hu, Option.bind_some]
      have hreached : reached step s (a :: as) = reached step u as := by
        obtain ⟨v, hv⟩ := Option.isSome_iff_exists.mp h
        rw [reached, reached, ← hfollow, hv]
        rfl
      rw [trace, hu] at hok ⊢
      rw [hreached]
      have hrest := ih (hfollow ▸ h) fun m hm => hok m (List.mem_cons_of_mem _ hm)
      exact (Run.start.next (hok _ List.mem_cons_self) hu).trans hrest

/-- Repeating a label from the end of a run, with an invariant that counts the repetitions. -/
theorem Run.replicate {P : ℕ → σ → Prop} {a : α} {n : ℕ} (hrun : Run step ok s history t)
    (ht : P 0 t) (hstep : ∀ i t, i < n → P i t → ok t a ∧ ∃ u, step t a = some u ∧ P (i + 1) u) :
    ∃ history' u, Run step ok s history' u ∧ P n u := by
  induction n with
  | zero => exact ⟨history, t, hrun, ht⟩
  | succ n ih =>
    obtain ⟨history', u, hrun', hu⟩ := ih fun i t hi => hstep i t (by omega)
    obtain ⟨hok, v, hv, hnext⟩ := hstep n u (by omega) hu
    exact ⟨_, v, hrun'.next hok hv, hnext⟩

/-- Following labels from the end of a run extends it, where each label is admitted. -/
theorem Run.follow (hrun : Run step anyStep s history t) (labels : List α) {u : σ}
    (h : follow step t labels = some u) : ∃ history', Run step anyStep s history' u := by
  induction labels generalizing history t with
  | nil => exact ⟨history, by cases h; exact hrun⟩
  | cons a as ih =>
    obtain ⟨v, hv, hu⟩ := Option.bind_eq_some_iff.mp h
    exact ih (.next hrun trivial hv) hu

end SkhuOS.Foundation

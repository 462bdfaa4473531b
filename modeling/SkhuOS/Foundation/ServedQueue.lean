import SkhuOS.Foundation.Transition

/-! Queues served in order. Each step takes at most the first element out of a queue and lets
others join at its end. -/
namespace SkhuOS.Foundation

variable {σ α β : Type*} {step : σ → α → Option σ} {ok : σ → α → Prop} {s t : σ}
  {history : List (Move σ α)}

/-- What a run has served, followed by what is left, is what was there, followed by what joined. -/
theorem Run.served {queue : σ → List β} {served : Move σ α → Option β} {P : σ → Prop}
    (hrun : Run step ok s history t) (hs : P s)
    (hP : ∀ t a u, P t → ok t a → step t a = some u → P u)
    (hstep : ∀ t a u, P t → ok t a → step t a = some u →
      ∃ joined, queue t ++ joined = (served ⟨t, a, u⟩).toList ++ queue u) :
    ∃ joined, queue s ++ joined = history.filterMap served ++ queue t := by
  have hkept : P t ∧ ∃ joined, queue s ++ joined = history.filterMap served ++ queue t := by
    apply hrun.history_invariant (P := fun past t =>
      P t ∧ ∃ joined, queue s ++ joined = past.filterMap served ++ queue t)
    · exact ⟨hs, [], by simp⟩
    · intro past t a u _ hpast hok h
      obtain ⟨ht, joined, hold⟩ := hpast
      obtain ⟨joined', hnew⟩ := hstep t a u ht hok h
      have hserved : (past ++ [(⟨t, a, u⟩ : Move σ α)]).filterMap served =
          past.filterMap served ++ (served ⟨t, a, u⟩).toList := by
        rw [List.filterMap_append]
        cases hnext : served ⟨t, a, u⟩ <;> simp [hnext]
      refine ⟨hP t a u ht hok h, joined ++ joined', ?_⟩
      calc queue s ++ (joined ++ joined') = past.filterMap served ++ (queue t ++ joined') := by
            rw [← List.append_assoc, hold, List.append_assoc]
        _ = (past ++ [(⟨t, a, u⟩ : Move σ α)]).filterMap served ++ queue u := by
            rw [hnew, hserved, List.append_assoc]
  exact hkept.2

/-- An element of the queue has been served at its place, or has moved up by as many places
as elements were served. -/
theorem served_or_waiting {xs joined ys zs : List β} {i : ℕ} {b : β}
    (h : xs ++ joined = ys ++ zs) (hb : xs[i]? = some b) :
    if ys.length ≤ i then zs[i - ys.length]? = some b else ys[i]? = some b := by
  have hplace : (ys ++ zs)[i]? = some b := by
    rw [← h, List.getElem?_append_left (List.getElem?_eq_some_iff.mp hb).1, hb]
  split
  next hle => rwa [List.getElem?_append_right hle] at hplace
  next hlt => rwa [List.getElem?_append_left (by omega)] at hplace

end SkhuOS.Foundation

import SkhuOS.Foundation.Program

/-! Programs served by a device with states: the device may answer a request in several ways,
and goes on in another state. -/
namespace SkhuOS.Foundation

/-- `D w r a w'`: in state `w` the device may answer `r` by `a` and go to `w'`. -/
abbrev Device {Request : Type} (Answer : Request → Type) (W : Type) :=
  W → (r : Request) → Answer r → W → Prop

namespace Program

variable {Request : Type} {Answer : Request → Type} {W α β : Type}

/-- The program, served from state `w` on, returns `x` and leaves the device in the last state. -/
inductive Runs (D : Device Answer W) : Program Answer α → W → α → W → Prop
  | ret {x : α} {w : W} : Runs D (ret x) w x w
  | ask {r : Request} {rest : Answer r → Program Answer α} {w w' w'' : W} {a : Answer r} {x : α}
      (hanswer : D w r a w') (hrest : Runs D (rest a) w' x w'') : Runs D (ask r rest) w x w''

/-- Whatever the device answers, the program returns with `Q`. -/
def Served (D : Device Answer W) : Program Answer α → W → (α → W → Prop) → Prop
  | ret x, w, Q => Q x w
  | ask r rest, w, Q => ∀ a w', D w r a w' → (rest a).Served D w' Q

variable {D : Device Answer W} {p : Program Answer α} {f : α → Program Answer β} {w : W}
  {Q Q' : α → W → Prop}

@[simp] theorem served_ret {x : α} : (ret x : Program Answer α).Served D w Q ↔ Q x w := Iff.rfl

@[simp] theorem served_ask {r : Request} {rest : Answer r → Program Answer α} :
    (ask r rest).Served D w Q ↔ ∀ a w', D w r a w' → (rest a).Served D w' Q := Iff.rfl

theorem Served.mono (h : p.Served D w Q) (hQ : ∀ x w', Q x w' → Q' x w') : p.Served D w Q' := by
  induction p generalizing w with
  | ret x => exact hQ x w h
  | ask r rest ih => exact fun a w' ha => ih a (h a w' ha)

/-- The rule for sequences. -/
theorem Served.bind {Q : β → W → Prop}
    (h : p.Served D w fun x w' => (f x).Served D w' Q) : (p >>= f).Served D w Q := by
  induction p generalizing w with
  | ret x => exact h
  | ask r rest ih => exact fun a w' ha => ih a (h a w' ha)

/-- The rule is sound, and as strong as the runs. -/
theorem served_iff : p.Served D w Q ↔ ∀ x w', p.Runs D w x w' → Q x w' := by
  induction p generalizing w with
  | ret x =>
    refine ⟨fun h y w' hrun => ?_, fun h => h x w .ret⟩
    cases hrun
    exact h
  | ask r rest ih =>
    constructor
    · intro h y w' hrun
      cases hrun with
      | ask hanswer hrest => exact (ih _).mp (h _ _ hanswer) y w' hrest
    · exact fun h a w' ha => (ih a).mpr fun y w'' hrest => h y w'' (.ask ha hrest)

/-- What a program is served with, a run of it returns. -/
theorem Runs.served {x : α} {w' : W} (hrun : p.Runs D w x w') (h : p.Served D w Q) : Q x w' :=
  served_iff.mp h x w' hrun

theorem Runs.bind {x : α} {y : β} {w' w'' : W} (h : p.Runs D w x w')
    (h' : (f x).Runs D w' y w'') : (p >>= f).Runs D w y w'' := by
  induction h with
  | ret => exact h'
  | ask hanswer _ ih => exact .ask hanswer (ih h')

/-- A device that answers every request brings every program to its return. -/
theorem exists_runs (hanswers : ∀ w r, ∃ a w', D w r a w') (p : Program Answer α) (w : W) :
    ∃ x w', p.Runs D w x w' := by
  induction p generalizing w with
  | ret x => exact ⟨x, w, .ret⟩
  | ask r rest ih =>
    obtain ⟨a, w₁, ha⟩ := hanswers w r
    obtain ⟨x, w', hrun⟩ := ih a w₁
    exact ⟨x, w', .ask ha hrun⟩

theorem Served.runs (h : p.Served D w Q) (hanswers : ∀ w r, ∃ a w', D w r a w') :
    ∃ x w', p.Runs D w x w' ∧ Q x w' := by
  obtain ⟨x, w', hrun⟩ := exists_runs hanswers p w
  exact ⟨x, w', hrun, hrun.served h⟩

end Program
end SkhuOS.Foundation

/-
Edits run step by step.

`Edit.exec` runs an edit, and each way to put edits together has its equation.
What an edit that is refused has done is not undone for it: an edit is `Careful`
if a refusal leaves what is kept as it was. Edits that check first, and refuse
nothing once they have begun to write, are careful (`Careful.bind`).
-/
import Columnar.Edit
import Columnar.Proofs.Outcomes

namespace Columnar.Edit

variable {σ τ α β : Type}

/-- The answer of an edit, or why there is none, and what it leaves. -/
def exec (e : Edit σ α) (s : σ) : Outcome α × σ := e.run s

theorem exec_pure (a : α) (s : σ) : (pure a : Edit σ α).exec s = (.ok a, s) := rfl

theorem exec_get (s : σ) : (get : Edit σ σ).exec s = (.ok s, s) := rfl

theorem exec_set (s t : σ) : (set t : Edit σ Unit).exec s = (.ok (), t) := rfl

theorem exec_modify (f : σ → σ) (s : σ) : (modify f : Edit σ Unit).exec s = (.ok (), f s) := rfl

theorem exec_lift (x : Outcome α) (s : σ) : (liftM x : Edit σ α).exec s = (x, s) := by
  cases x <;> rfl

theorem exec_bind (e : Edit σ α) (f : α → Edit σ β) (s : σ) :
    (e >>= f).exec s =
      match e.exec s with
      | (.ok a, s') => (f a).exec s'
      | (.error fault, s') => (.error fault, s') := by
  have h : (e >>= f).exec s =
      (ExceptT.bindCont f (e.exec s).1 : StateM σ (Outcome β)) (e.exec s).2 := rfl
  rw [h]
  rcases e.exec s with ⟨_ | a, s'⟩ <;> rfl

theorem exec_check (require : σ → Outcome Unit) (s : σ) : (check require).exec s = (require s, s) := by
  rw [check, exec_bind, exec_get]
  exact exec_lift _ s

theorem exec_check_bind (require : σ → Outcome Unit) (f : Unit → Edit σ α) (s : σ) :
    (check require >>= f).exec s =
      match require s with
      | .ok () => (f ()).exec s
      | .error fault => (.error fault, s) := by
  rw [exec_bind, exec_check]
  cases require s <;> rfl

theorem exec_step (f : σ → Outcome σ) (s : σ) :
    (step f).exec s = match f s with
      | .ok s' => (.ok (), s')
      | .error fault => (.error fault, s) := by
  simp only [step, exec_bind, exec_get, exec_lift]
  cases f s <;> rfl

theorem exec_part (read : σ → τ) (write : σ → τ → σ) (e : Edit τ α) (s : σ) :
    (part read write e).exec s = ((e.exec (read s)).1, write s (e.exec (read s)).2) := rfl

/-! ## What is left of an edit with an answer -/

theorem outcome_eq (e : Edit σ Unit) (s : σ) :
    e.outcome s = match e.exec s with
      | (.ok (), s') => .ok s'
      | (.error fault, _) => .error fault := rfl

theorem outcome_eq_ok {e : Edit σ Unit} {s s' : σ} : e.outcome s = .ok s' ↔ e.exec s = (.ok (), s') := by
  unfold outcome exec
  rcases e.run s with ⟨_ | ⟨⟩, t⟩ <;> simp

theorem outcome_eq_error {e : Edit σ Unit} {s : σ} {fault : Fault} :
    e.outcome s = .error fault ↔ (e.exec s).1 = .error fault := by
  unfold outcome exec
  rcases e.run s with ⟨_ | ⟨⟩, t⟩ <;> simp

theorem outcome_modify (f : σ → σ) (s : σ) : (modify f : Edit σ Unit).outcome s = .ok (f s) := rfl

theorem outcome_bind (e : Edit σ Unit) (f : Unit → Edit σ Unit) (s : σ) :
    (e >>= f).outcome s = e.outcome s >>= (f ()).outcome := by
  have h := exec_bind e f s
  unfold exec at h
  unfold outcome
  rw [h]
  rcases e.run s with ⟨_ | ⟨⟩, t⟩ <;> rfl

theorem outcome_check_bind (require : σ → Outcome Unit) (f : Unit → Edit σ Unit) (s : σ) :
    (check require >>= f).outcome s = require s >>= fun _ => (f ()).outcome s := by
  have h := exec_check require s
  unfold exec at h
  rw [outcome_bind, outcome, h]
  cases require s <;> rfl

theorem outcome_step (f : σ → Outcome σ) (s : σ) : (step f).outcome s = f s := by
  have h := exec_step f s
  unfold exec at h
  rw [outcome, h]
  cases f s <;> rfl

/-- Steps for the elements of a list are a fold over these. -/
theorem outcome_forM {as : List α} {e : α → Edit σ Unit} {f : σ → α → Outcome σ}
    (h : ∀ a s, (e a).outcome s = f s a) (s : σ) : (as.forM e).outcome s = as.foldlM f s := by
  induction as generalizing s with
  | nil => rfl
  | cons a as ih =>
    rw [List.forM_eq_forM, List.forM_cons, outcome_bind, h, List.foldlM_cons]
    exact congrArg _ (funext ih)

/-- Repeated steps are those for the elements of a list of one element. -/
theorem outcome_times {e : Edit σ Unit} {f : σ → α → Outcome σ} {a : α}
    (h : ∀ s, e.outcome s = f s a) (n : Nat) (s : σ) :
    (e.times n).outcome s = (List.replicate n a).foldlM f s := by
  induction n generalizing s with
  | zero => rfl
  | succ n ih =>
    rw [times, outcome_bind, h, List.replicate_succ, List.foldlM_cons]
    exact congrArg _ (funext ih)

/-! ## Refusals -/

/-- That an edit which is refused leaves everything as it was. -/
def Careful (e : Edit σ α) : Prop := ∀ s s' error, e.exec s = (.error (.refused error), s') → s' = s

/-- That an edit is never refused. -/
def Willing (e : Edit σ α) : Prop := ∀ s error, (e.exec s).1 ≠ .error (.refused error)

namespace Willing

theorem pure (a : α) : (pure a : Edit σ α).Willing := by
  intro s error
  simp [exec_pure]

theorem bind {e : Edit σ α} {f : α → Edit σ β} (he : e.Willing) (hf : ∀ a, (f a).Willing) :
    (e >>= f).Willing := by
  intro s error h
  rw [exec_bind] at h
  rcases hx : e.exec s with ⟨fault | a, s'⟩
  · rw [hx] at h
    cases h
    exact he s error (congrArg Prod.fst hx)
  · rw [hx] at h
    exact hf a s' error h

theorem modify (f : σ → σ) : (modify f : Edit σ Unit).Willing := by
  intro s error
  simp [exec_modify]

theorem step {f : σ → Outcome σ} (h : ∀ s error, f s ≠ .error (.refused error)) :
    (Edit.step f).Willing := by
  intro s error hstep
  rw [exec_step] at hstep
  cases hf : f s with
  | ok s' =>
    rw [hf] at hstep
    cases hstep
  | error fault =>
    rw [hf] at hstep
    cases hstep
    exact h s error hf

theorem forM {as : List α} {e : α → Edit σ Unit} (h : ∀ a, (e a).Willing) : (as.forM e).Willing := by
  induction as with
  | nil => exact .pure ()
  | cons a as ih =>
    rw [List.forM_eq_forM, List.forM_cons]
    exact (h a).bind fun _ => ih

theorem times {e : Edit σ Unit} (h : e.Willing) (n : Nat) : (e.times n).Willing := by
  induction n with
  | zero => exact .pure ()
  | succ n ih => exact h.bind fun _ => ih

end Willing

namespace Careful

/-- **Checks come first**: what follows refuses nothing. -/
theorem bind {e : Edit σ α} {f : α → Edit σ β} (he : e.Careful) (hf : ∀ a, (f a).Willing) :
    (e >>= f).Careful := by
  intro s s' error h
  rw [exec_bind] at h
  rcases hx : e.exec s with ⟨fault | a, t⟩
  · rw [hx] at h
    cases h
    exact he s _ error hx
  · rw [hx] at h
    exact absurd (congrArg Prod.fst h) (hf a t error)

theorem check_bind {require : σ → Outcome Unit} {f : Unit → Edit σ α} (hf : (f ()).Careful) :
    (check require >>= f).Careful := by
  intro s s' error h
  rw [exec_bind, exec_check] at h
  cases hr : require s with
  | ok =>
    rw [hr] at h
    exact hf s s' error h
  | error fault =>
    rw [hr] at h
    cases h
    rfl

theorem of_willing {e : Edit σ α} (he : e.Willing) : e.Careful := by
  intro s s' error h
  exact absurd (congrArg Prod.fst h) (he s error)

theorem part {read : σ → τ} (write : σ → τ → σ) (hwrite : ∀ s, write s (read s) = s) {e : Edit τ α}
    (he : e.Careful) : (Edit.part read write e).Careful := by
  intro s s' error h
  have hpart := exec_part read write e s
  rw [h] at hpart
  have hkept : (e.exec (read s)).2 = read s :=
    he (read s) _ error (Prod.ext (congrArg Prod.fst hpart).symm rfl)
  rw [show s' = write s (e.exec (read s)).2 from congrArg Prod.snd hpart, hkept, hwrite]

end Careful

end Columnar.Edit

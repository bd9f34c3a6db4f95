/-
Outcomes taken apart, and folds and sums over lists.

`Outcome.bind_eq_ok` gives the outcomes that a successful one was made of.
`foldlM_track` is the induction on folds: what one step makes of the elements
taken so far holds of all of them in the end.
-/
import Columnar.Error

namespace Columnar

namespace Outcome

theorem bind_eq_ok {α β : Type} {x : Outcome α} {f : α → Outcome β} {b : β} :
    (x >>= f) = .ok b ↔ ∃ a, x = .ok a ∧ f a = .ok b := by
  cases x with
  | ok a => simp [bind, Except.bind]
  | error e => simp [bind, Except.bind]

/-- A step that answers with nothing only has to succeed. -/
theorem seq_eq_ok {α : Type} {x : Outcome Unit} {y : Outcome α} {b : α} :
    (x >>= fun _ => y) = .ok b ↔ x = .ok () ∧ y = .ok b := by
  rw [bind_eq_ok]
  exact ⟨fun ⟨_, hx, hy⟩ => ⟨hx, hy⟩, fun ⟨hx, hy⟩ => ⟨(), hx, hy⟩⟩

theorem map_eq_ok {α β : Type} {x : Outcome α} {f : α → β} {b : β} :
    f <$> x = .ok b ↔ ∃ a, x = .ok a ∧ f a = b := by
  cases x with
  | ok a => simp [Functor.map, Except.map]
  | error e => simp [Functor.map, Except.map]

@[simp] theorem pure_eq_ok {α : Type} {a b : α} : (pure a : Outcome α) = .ok b ↔ a = b := by
  simp [pure, Except.pure]

@[simp] theorem ofOption_eq_ok {α : Type} {x : Option α} {a : α} :
    ofOption x = .ok a ↔ x = some a := by
  cases x <;> simp [ofOption]

@[simp] theorem refuse_ne_ok {α : Type} {e : ColumnError} {a : α} :
    (refuse e : Outcome α) = .ok a ↔ False := by
  simp [refuse]

/-- A check that passed. -/
@[simp] theorem check_eq_ok {p : Prop} [Decidable p] {e : ColumnError} {u : Unit} :
    (if p then .ok () else refuse e : Outcome Unit) = .ok u ↔ p := by
  by_cases h : p <;> simp [h, refuse]

/-- That nothing reached out of bounds. -/
def InBounds {α : Type} (x : Outcome α) : Prop := x ≠ .error .outOfBounds

theorem inBounds_ok {α : Type} (a : α) : InBounds (.ok a : Outcome α) := by simp [InBounds]

theorem inBounds_refuse {α : Type} (e : ColumnError) : InBounds (refuse e : Outcome α) := by
  simp [InBounds, refuse]

theorem InBounds.bind {α β : Type} {x : Outcome α} {f : α → Outcome β} (hx : x.InBounds)
    (hf : ∀ a, x = .ok a → (f a).InBounds) : (x >>= f).InBounds := by
  cases x with
  | ok a => exact hf a rfl
  | error fault => exact fun h => hx (congrArg Except.error (Except.error.inj h))

theorem inBounds_check {p : Prop} [Decidable p] {e : ColumnError} :
    InBounds (if p then .ok () else refuse e : Outcome Unit) := by
  split
  · exact inBounds_ok ()
  · exact inBounds_refuse e

end Outcome

/-- **Folding**: what every step keeps of the elements taken so far, the fold
keeps of all of them. -/
theorem foldlM_track {σ α : Type} {push : σ → α → Outcome σ} {R : List α → σ → Prop}
    (hstep : ∀ {l a s s'}, R l s → push s a = .ok s' → R (l ++ [a]) s') {l as : List α} {s s' : σ}
    (h : R l s) (hs : as.foldlM push s = .ok s') : R (l ++ as) s' := by
  induction as generalizing l s with
  | nil =>
    simp only [List.foldlM_nil, Outcome.pure_eq_ok] at hs
    rw [List.append_nil, ← hs]
    exact h
  | cons a as ih =>
    rw [List.foldlM_cons, Outcome.bind_eq_ok] at hs
    obtain ⟨t, ht, hs⟩ := hs
    have := ih (hstep h ht) hs
    rwa [List.append_assoc] at this

theorem total_append (a b : List Nat) : total (a ++ b) = total a + total b := by
  induction a with
  | nil => simp [total]
  | cons n a ih => simp only [List.cons_append, total, ih, Nat.add_assoc]

theorem total_perm {ns ms : List Nat} (h : ns.Perm ms) : total ns = total ms := by
  induction h with
  | nil => rfl
  | cons n _ ih => rw [total, total, ih]
  | swap n m ns => simp only [total]; omega
  | trans _ _ ih ih' => exact ih.trans ih'

theorem total_eq_zero {l : List Nat} (h : ∀ n ∈ l, n = 0) : total l = 0 := by
  induction l with
  | nil => rfl
  | cons n l ih => rw [total, h n (by simp), ih fun m hm => h m (by simp [hm])]

end Columnar

/-
Actions run step by step.

`Action.exec` runs an action, and each way to put actions together has its
equation. An action is `Safe` for an invariant of sessions if it keeps the
invariant and loses nothing, whether it gives an answer or stops; safe actions
in a row are safe (`Safe.bind`). What names something anew may lose what was
under the name: such an action only `Keeps` the invariant.
-/
import Columnar.Proofs.Contents

namespace Columnar

namespace Action

variable {α β : Type}

/-- The answer of an action, or why it stopped, and the session it leaves. -/
def exec (x : Action α) (s : Session) : Except Stop α × Session := x.run s

theorem exec_pure (a : α) (s : Session) : (pure a : Action α).exec s = (.ok a, s) := rfl

theorem exec_throw (stop : Stop) (s : Session) : (throw stop : Action α).exec s = (.error stop, s) := rfl

theorem exec_get (s : Session) : (get : Action Session).exec s = (.ok s, s) := rfl

theorem exec_modify (f : Session → Session) (s : Session) :
    (modify f : Action Unit).exec s = (.ok (), f s) := rfl

theorem exec_modifyGet (f : Session → α × Session) (s : Session) :
    (modifyGet f : Action α).exec s = (.ok (f s).1, (f s).2) := rfl

theorem exec_bind (x : Action α) (f : α → Action β) (s : Session) :
    (x >>= f).exec s =
      match x.exec s with
      | (.ok a, s') => (f a).exec s'
      | (.error stop, s') => (.error stop, s') := by
  have h : (x >>= f).exec s =
      (ExceptT.bindCont f (x.exec s).1 : StateM Session (Except Stop β)) (x.exec s).2 := rfl
  rw [h]
  rcases x.exec s with ⟨_ | a, s'⟩ <;> rfl

theorem exec_tryCatch (x : Action α) (f : Stop → Action α) (s : Session) :
    (tryCatch x f).exec s =
      match x.exec s with
      | (.ok a, s') => (.ok a, s')
      | (.error stop, s') => (f stop).exec s' := by
  simp only [exec, tryCatch, tryCatchThe, MonadExceptOf.tryCatch, ExceptT.tryCatch, ExceptT.mk,
    ExceptT.run, bind, StateT.bind, pure]
  rcases (x s : Except Stop α × Session) with ⟨_ | a, s'⟩ <;> rfl

theorem exec_bind_ok {x : Action α} {f : α → Action β} {s s' : Session} {a : α}
    (hx : x.exec s = (.ok a, s')) : (x >>= f).exec s = (f a).exec s' := by
  rw [exec_bind, hx]

theorem exec_bind_error {x : Action α} {f : α → Action β} {s s' : Session} {stop : Stop}
    (hx : x.exec s = (.error stop, s')) : (x >>= f).exec s = (.error stop, s') := by
  rw [exec_bind, hx]

theorem exec_tryCatch_ok {x : Action α} {f : Stop → Action α} {s s' : Session} {a : α}
    (hx : x.exec s = (.ok a, s')) : (tryCatch x f).exec s = (.ok a, s') := by
  rw [exec_tryCatch, hx]

theorem exec_tryCatch_error {x : Action α} {f : Stop → Action α} {s s' : Session} {stop : Stop}
    (hx : x.exec s = (.error stop, s')) : (tryCatch x f).exec s = (f stop).exec s' := by
  rw [exec_tryCatch, hx]

theorem exec_act (x : Outcome α) (s : Session) :
    x.act.exec s = (match x with | .ok a => .ok a | .error f => .error (.fault f), s) := by
  cases x <;> rfl

theorem exec_named (name : String) (x : Option α) (s : Session) :
    (named name x).exec s = (match x with | some a => .ok a | none => .error (.noSuchObject name), s) := by
  cases x <;> rfl

/-! ## Safe actions -/

/-- An action that keeps an invariant and loses nothing; `Q` is what its answer
tells of the session it leaves. -/
structure Safe (I : Session → Prop) (x : Action α) (s : Session) (Q : α → Session → Prop) : Prop where
  keeps : I (x.exec s).2
  later : s.Later (x.exec s).2
  answer : ∀ a, (x.exec s).1 = .ok a → Q a (x.exec s).2

namespace Safe

variable {I : Session → Prop} {s : Session} {Q : α → Session → Prop} {R : β → Session → Prop}

theorem pure {a : α} (hs : I s) (hQ : Q a s) : Safe I (pure a) s Q where
  keeps := hs
  later := .refl s
  answer b hb := by
    cases hb
    exact hQ

theorem throw {stop : Stop} (hs : I s) : Safe I (throw stop : Action α) s Q where
  keeps := hs
  later := .refl s
  answer b hb := by cases hb

theorem bind {x : Action α} {f : α → Action β} (hx : Safe I x s Q)
    (hf : ∀ a s', I s' → s.Later s' → Q a s' → Safe I (f a) s' R) : Safe I (x >>= f) s R := by
  obtain ⟨hkeeps, hlater, hanswer⟩ := hx
  rcases h : x.exec s with ⟨_ | a, s'⟩
  · rw [h] at hkeeps hlater
    constructor <;> rw [exec_bind, h]
    · exact hkeeps
    · exact hlater
    · exact fun _ hb => by cases hb
  · rw [h] at hkeeps hlater hanswer
    obtain ⟨hkeeps', hlater', hanswer'⟩ := hf a s' hkeeps hlater (hanswer a rfl)
    constructor <;> rw [exec_bind, h]
    · exact hkeeps'
    · exact hlater.trans hlater'
    · exact hanswer'

/-- After an action that leaves the session as it is. -/
theorem bindSame {x : Action α} {f : α → Action β} {P : α → Prop}
    (hx : Safe I x s fun a s' => s = s' ∧ P a) (hf : ∀ a, P a → Safe I (f a) s R) :
    Safe I (x >>= f) s R := by
  refine hx.bind ?_
  intro a s' _ _ hanswer
  obtain ⟨rfl, ha⟩ := hanswer
  exact hf a ha

/-- After an action that is known to lead to some session. -/
theorem bindTo {x : Action α} {f : α → Action β} {t : Session} (hx : Safe I x s fun _ s' => s' = t)
    (hf : ∀ a, Safe I (f a) t R) : Safe I (x >>= f) s R := by
  refine hx.bind ?_
  intro a s' _ _ hanswer
  subst hanswer
  exact hf a

theorem mono {x : Action α} {Q' : α → Session → Prop} (hx : Safe I x s Q)
    (h : ∀ a s', I s' → s.Later s' → Q a s' → Q' a s') : Safe I x s Q' where
  keeps := hx.keeps
  later := hx.later
  answer a ha := h a _ hx.keeps hx.later (hx.answer a ha)

theorem tryCatch {x : Action α} {f : Stop → Action α} (hx : Safe I x s Q)
    (hf : ∀ stop s', I s' → s.Later s' → Safe I (f stop) s' Q) : Safe I (tryCatch x f) s Q := by
  obtain ⟨hkeeps, hlater, hanswer⟩ := hx
  rcases h : x.exec s with ⟨stop | a, s'⟩
  · rw [h] at hkeeps hlater
    obtain ⟨hkeeps', hlater', hanswer'⟩ := hf stop s' hkeeps hlater
    constructor <;> rw [exec_tryCatch, h]
    · exact hkeeps'
    · exact hlater.trans hlater'
    · exact hanswer'
  · rw [h] at hkeeps hlater hanswer
    constructor <;> rw [exec_tryCatch, h]
    · exact hkeeps
    · exact hlater
    · exact hanswer

theorem get (hs : I s) : Safe I (get : Action Session) s fun t s' => s = s' ∧ s = t where
  keeps := hs
  later := .refl s
  answer a ha := by
    cases ha
    exact ⟨rfl, rfl⟩

theorem modify {f : Session → Session} (hf : I (f s)) (hlater : s.Later (f s)) :
    Safe I (modify f : Action Unit) s fun _ s' => s' = f s where
  keeps := hf
  later := hlater
  answer _ _ := rfl

theorem modifyGet {f : Session → α × Session} (hf : I (f s).2) (hlater : s.Later (f s).2) :
    Safe I (modifyGet f : Action α) s fun a s' => a = (f s).1 ∧ s' = (f s).2 where
  keeps := hf
  later := hlater
  answer a ha := by
    cases ha
    exact ⟨rfl, rfl⟩

/-- An action of which the answer and the session are known. -/
theorem of_exec {x : Action α} {a : α} {s' : Session} (hx : x.exec s = (.ok a, s')) (hs' : I s')
    (hlater : s.Later s') : Safe I x s fun b t => b = a ∧ t = s' := by
  constructor <;> rw [hx]
  · exact hs'
  · exact hlater
  · rintro _ ⟨⟩
    exact ⟨rfl, rfl⟩

theorem act {x : Outcome α} (hs : I s) : Safe I x.act s fun a s' => s = s' ∧ x = .ok a := by
  cases x with
  | ok a => exact .pure hs ⟨rfl, rfl⟩
  | error f => exact .throw hs

theorem named {name : String} {x : Option α} (hs : I s) :
    Safe I (named name x) s fun a s' => s = s' ∧ x = some a := by
  cases x with
  | some a => exact .pure hs ⟨rfl, rfl⟩
  | none => exact .throw hs

end Safe

/-! ## Actions that keep an invariant -/

/-- An action that keeps an invariant; `Q` is what its answer tells of the
session it leaves. -/
structure Keeps (I : Session → Prop) (x : Action α) (s : Session) (Q : α → Session → Prop) : Prop where
  keeps : I (x.exec s).2
  answer : ∀ a, (x.exec s).1 = .ok a → Q a (x.exec s).2

namespace Keeps

variable {I : Session → Prop} {s : Session} {Q : α → Session → Prop} {R : β → Session → Prop}

theorem pure {a : α} (hs : I s) (hQ : Q a s) : Keeps I (pure a) s Q :=
  ⟨hs, fun b hb => by
    cases hb
    exact hQ⟩

theorem bind {x : Action α} {f : α → Action β} (hx : Keeps I x s Q)
    (hf : ∀ a s', I s' → Q a s' → Keeps I (f a) s' R) : Keeps I (x >>= f) s R := by
  obtain ⟨hkeeps, hanswer⟩ := hx
  rcases h : x.exec s with ⟨_ | a, s'⟩
  · rw [h] at hkeeps
    constructor <;> rw [exec_bind, h]
    · exact hkeeps
    · exact fun _ hb => by cases hb
  · rw [h] at hkeeps hanswer
    obtain ⟨hkeeps', hanswer'⟩ := hf a s' hkeeps (hanswer a rfl)
    constructor <;> rw [exec_bind, h]
    · exact hkeeps'
    · exact hanswer'

theorem modify {f : Session → Session} (hf : I (f s)) :
    Keeps I (modify f : Action Unit) s fun _ s' => s' = f s :=
  ⟨hf, fun _ _ => rfl⟩

theorem modifyGet {f : Session → α × Session} (hf : I (f s).2) :
    Keeps I (modifyGet f : Action α) s fun _ _ => True :=
  ⟨hf, fun _ _ => trivial⟩

end Keeps

/-- A safe action, and then one that keeps the invariant. -/
theorem Safe.bindKeeps {I : Session → Prop} {s : Session} {Q : α → Session → Prop}
    {R : β → Session → Prop} {x : Action α} {f : α → Action β} (hx : Safe I x s Q)
    (hf : ∀ a s', I s' → s.Later s' → Q a s' → Keeps I (f a) s' R) : Keeps I (x >>= f) s R := by
  have hlater := hx.later
  have hx' : Keeps I x s fun a s' => s.Later s' ∧ Q a s' :=
    ⟨hx.keeps, fun a ha => ⟨hlater, hx.answer a ha⟩⟩
  exact hx'.bind fun a s' hs' h => hf a s' hs' h.1 h.2

theorem Safe.bindSameKeeps {I : Session → Prop} {s : Session} {P : α → Prop} {R : β → Session → Prop}
    {x : Action α} {f : α → Action β} (hx : Safe I x s fun a s' => s = s' ∧ P a)
    (hf : ∀ a, P a → Keeps I (f a) s R) : Keeps I (x >>= f) s R := by
  refine hx.bindKeeps ?_
  intro a s' _ _ hanswer
  obtain ⟨rfl, ha⟩ := hanswer
  exact hf a ha

end Action

end Columnar

/-
Actions carried out in two sessions.

Two actions `Agree`, each in a session of its own, if they both answer or both stop
for one reason, and leave sessions that are related in some way; agreeing actions in
a row agree (`Agree.bind`). Two vectors are `Counterparts` if they have one shape and
bring one payload in related sessions. Then all reads of them agree. A relation is a
`Likeness` if every vector is its own counterpart, and builders are the same; then all
additions to builders agree too: they know nothing else of a session.
-/
import Columnar.Proofs.Concatenating
import Columnar.Script

namespace Columnar

/-- That the elements of all builders are of their kind. -/
def Session.Suited (s : Session) : Prop :=
  ∀ name b, s.builders.find? name = some b → b.elements.Suits b.kind

theorem Session.Suited.congr {s s' : Session} (h : s.Suited) (hb : s'.builders = s.builders) :
    s'.Suited := fun name b hfind => h name b (hb ▸ hfind)

theorem Session.Suited.setBuilder {s : Session} (h : s.Suited) (name : String) {b : Builder}
    (hb : b.elements.Suits b.kind) : (s.setBuilder name b).Suited := by
  intro other b' hfind
  rcases Table.of_find?_insert hfind with ⟨-, rfl⟩ | hfind
  · exact hb
  · exact h other b' hfind

namespace Action

variable {α β γ δ : Type}

/-- That two actions both answer or both stop for one reason, and leave related
sessions; `Q` is what the answers tell of each other and of the sessions. -/
inductive Agree (R : Session → Session → Prop) (x : Action α) (y : Action β) (s t : Session)
    (Q : α → β → Session → Session → Prop) : Prop where
  | answers {a : α} {b : β} {s' t' : Session} (hx : x.exec s = (.ok a, s'))
      (hy : y.exec t = (.ok b, t')) (hR : R s' t') (hQ : Q a b s' t')
  | stops {stop : Stop} {s' t' : Session} (hx : x.exec s = (.error stop, s'))
      (hy : y.exec t = (.error stop, t')) (hR : R s' t')

/-- That an action gives one answer in two sessions. -/
def Same (R : Session → Session → Prop) (x : Action α) (s t : Session) : Prop :=
  Agree R x x s t fun a b _ _ => a = b

variable {R : Session → Session → Prop} {s t : Session} {Q : α → β → Session → Session → Prop}
  {P : γ → δ → Session → Session → Prop}

namespace Agree

variable {x : Action α} {y : Action β} {f : α → Action γ} {g : β → Action δ}

theorem pure {a : α} {b : β} (h : R s t) (hQ : Q a b s t) : Agree R (pure a) (pure b) s t Q :=
  .answers rfl rfl h hQ

theorem throw {stop : Stop} (h : R s t) :
    Agree R (throw stop : Action α) (throw stop : Action β) s t Q :=
  .stops rfl rfl h

theorem bind (hx : Agree R x y s t Q)
    (hf : ∀ a b s' t', R s' t' → Q a b s' t' → Agree R (f a) (g b) s' t' P) :
    Agree R (x >>= f) (y >>= g) s t P := by
  cases hx with
  | stops hx hy h => exact .stops (exec_bind_error hx) (exec_bind_error hy) h
  | answers hx hy h hQ =>
    cases hf _ _ _ _ h hQ with
    | stops hf hg h' => exact .stops ((exec_bind_ok hx).trans hf) ((exec_bind_ok hy).trans hg) h'
    | answers hf hg h' hP =>
      exact .answers ((exec_bind_ok hx).trans hf) ((exec_bind_ok hy).trans hg) h' hP

theorem tryCatch {f : Stop → Action α} {g : Stop → Action β} (hx : Agree R x y s t Q)
    (hf : ∀ stop s' t', R s' t' → Agree R (f stop) (g stop) s' t' Q) :
    Agree R (tryCatch x f) (tryCatch y g) s t Q := by
  cases hx with
  | answers hx hy h hQ => exact .answers (exec_tryCatch_ok hx) (exec_tryCatch_ok hy) h hQ
  | stops hx hy h =>
    cases hf _ _ _ h with
    | stops hf hg h' =>
      exact .stops ((exec_tryCatch_error hx).trans hf) ((exec_tryCatch_error hy).trans hg) h'
    | answers hf hg h' hQ =>
      exact .answers ((exec_tryCatch_error hx).trans hf) ((exec_tryCatch_error hy).trans hg) h' hQ

theorem mono {Q' : α → β → Session → Session → Prop} (h : Agree R x y s t Q)
    (hQ : ∀ a b s' t', R s' t' → Q a b s' t' → Q' a b s' t') : Agree R x y s t Q' := by
  cases h with
  | stops hx hy h => exact .stops hx hy h
  | answers hx hy h hab => exact .answers hx hy h (hQ _ _ _ _ h hab)

/-- After one answer in both sessions. -/
theorem bindSame {x y : Action α} {f : α → Action γ} {g : α → Action δ}
    (hx : Agree R x y s t fun a b _ _ => a = b)
    (hf : ∀ a s' t', R s' t' → Agree R (f a) (g a) s' t' P) : Agree R (x >>= f) (y >>= g) s t P := by
  refine Agree.bind hx ?_
  intro a b s' t' h hab
  obtain rfl : a = b := hab
  exact hf a s' t' h

/-- After an outcome that does not depend on the sessions. -/
theorem bindAct {z : Outcome α} {f : α → Action γ} {g : α → Action δ} (h : R s t)
    (hf : ∀ a, z = .ok a → Agree R (f a) (g a) s t P) : Agree R (z.act >>= f) (z.act >>= g) s t P := by
  cases z with
  | error e => exact .stops (exec_bind_error rfl) (exec_bind_error rfl) h
  | ok a =>
    cases hf a rfl with
    | stops hx hy h' => exact .stops ((exec_bind_ok rfl).trans hx) ((exec_bind_ok rfl).trans hy) h'
    | answers hx hy h' hP =>
      exact .answers ((exec_bind_ok rfl).trans hx) ((exec_bind_ok rfl).trans hy) h' hP

/-- After something is found, or is not, in both sessions. -/
theorem bindNamed {name : String} {z : Option α} {f : α → Action γ} {g : α → Action δ} (h : R s t)
    (hf : ∀ a, z = some a → Agree R (f a) (g a) s t P) :
    Agree R (named name z >>= f) (named name z >>= g) s t P := by
  cases z with
  | none => exact .stops (exec_bind_error rfl) (exec_bind_error rfl) h
  | some a =>
    cases hf a rfl with
    | stops hx hy h' => exact .stops ((exec_bind_ok rfl).trans hx) ((exec_bind_ok rfl).trans hy) h'
    | answers hx hy h' hP =>
      exact .answers ((exec_bind_ok rfl).trans hx) ((exec_bind_ok rfl).trans hy) h' hP

/-- After a look at the sessions. -/
theorem bindGet {f : Session → Action γ} {g : Session → Action δ} (h : Agree R (f s) (g t) s t P) :
    Agree R (get >>= f) (get >>= g) s t P := by
  cases h with
  | stops hx hy h =>
    exact .stops ((exec_bind_ok (exec_get s)).trans hx) ((exec_bind_ok (exec_get t)).trans hy) h
  | answers hx hy h hP =>
    exact .answers ((exec_bind_ok (exec_get s)).trans hx) ((exec_bind_ok (exec_get t)).trans hy) h hP

/-- After changes of the sessions. -/
theorem bindModify {f g : Session → Session} {x : Unit → Action γ} {y : Unit → Action δ}
    (h : Agree R (x ()) (y ()) (f s) (g t) P) : Agree R (modify f >>= x) (modify g >>= y) s t P := by
  cases h with
  | stops hx hy h =>
    exact .stops ((exec_bind_ok (exec_modify f s)).trans hx) ((exec_bind_ok (exec_modify g t)).trans hy) h
  | answers hx hy h hP =>
    exact .answers ((exec_bind_ok (exec_modify f s)).trans hx)
      ((exec_bind_ok (exec_modify g t)).trans hy) h hP

theorem modifyGet {f : Session → α × Session} {g : Session → β × Session} (h : R (f s).2 (g t).2)
    (hQ : Q (f s).1 (g t).1 (f s).2 (g t).2) :
    Agree R (modifyGet f : Action α) (modifyGet g : Action β) s t Q :=
  .answers rfl rfl h hQ

/-- What is refused is the same, and stays it as a value. -/
theorem refusal (h : Agree R x y s t Q) :
    Agree R (refusal x) (refusal y) s t fun r r' s' t' =>
      (∃ e, r = .error e ∧ r' = .error e) ∨ ∃ a b, r = .ok a ∧ r' = .ok b ∧ Q a b s' t' := by
  refine tryCatch (h.bind ?_) ?_
  · intro a b _ _ h hQ
    exact pure h (.inr ⟨a, b, rfl, rfl, hQ⟩)
  · intro stop _ _ h
    split
    next e => exact pure h (.inl ⟨e, rfl, rfl⟩)
    next => exact throw h

end Agree

namespace Same

variable {x : Action α}

theorem pure {a : α} (h : R s t) : Same R (pure a) s t := Agree.pure h rfl

theorem throw {stop : Stop} (h : R s t) : Same R (throw stop : Action α) s t := Agree.throw h

theorem bind {f : α → Action γ} {g : α → Action δ} (hx : Same R x s t)
    (hf : ∀ a s' t', R s' t' → Agree R (f a) (g a) s' t' P) :
    Agree R (x >>= f) (x >>= g) s t P := Agree.bindSame hx hf

theorem act {x : Outcome α} (h : R s t) : Same R x.act s t := by
  cases x with
  | ok a => exact .pure h
  | error f => exact .throw h

end Same

/-! ## Counterparts -/

/-- That one vector looks as another does, each in one of two related sessions. -/
structure Counterparts (R : Session → Session → Prop) (v w : String) : Prop where
  shape : ∀ {s t}, R s t → Agree R (shape v) (shape w) s t fun a b _ _ => a = b
  materialize : ∀ {s t}, R s t → Agree R (materialize v) (materialize w) s t fun a b _ _ => a = b

namespace Counterparts

variable {v w : String} (hR : Counterparts R v w)
include hR

theorem isNull (h : R s t) (i : Nat) :
    Agree R (isNull v i) (isNull w i) s t fun a b _ _ => a = b := by
  refine (hR.shape h).bindSame ?_
  intro sh _ _ h
  refine (Same.act h).bind ?_
  intro _ _ _ h
  split
  · exact Agree.pure h rfl
  · refine (hR.materialize h).bindSame ?_
    intro _ _ _ h
    exact Same.act h

theorem isNullExtended (h : R s t) (i : Nat) :
    Agree R (isNullExtended v i) (isNullExtended w i) s t fun a b _ _ => a = b := by
  refine (hR.shape h).bindSame ?_
  intro sh _ _ h
  split
  · exact Agree.pure h rfl
  · refine (hR.materialize h).bindSame ?_
    intro p _ _ h
    cases p.validity with
    | none => exact Agree.pure h rfl
    | some bits =>
      simp only
      split
      · exact Agree.pure h rfl
      · exact Same.act h

theorem validityBits (h : R s t) :
    Agree R (validityBits v) (validityBits w) s t fun a b _ _ => a = b := by
  refine (hR.shape h).bindSame ?_
  intro sh _ _ h
  split
  · exact Agree.pure h rfl
  · refine (hR.materialize h).bindSame ?_
    intro _ _ _ h
    exact Agree.pure h rfl

theorem element (h : R s t) (f : Primitive) (i : Nat) :
    Agree R (element v f i) (element w f i) s t fun a b _ _ => a = b := by
  refine (hR.shape h).bindSame ?_
  intro _ _ _ h
  refine (Same.act h).bind ?_
  intro _ _ _ h
  refine (Same.act h).bind ?_
  intro _ _ _ h
  refine (hR.materialize h).bindSame ?_
  intro _ _ _ h
  exact Same.act h

theorem text (h : R s t) (i : Nat) : Agree R (text v i) (text w i) s t fun a b _ _ => a = b := by
  refine (hR.shape h).bindSame ?_
  intro _ _ _ h
  refine (Same.act h).bind ?_
  intro _ _ _ h
  refine (hR.materialize h).bindSame ?_
  intro _ _ _ h
  exact Same.act h

theorem scalar (h : R s t) (i : Nat) :
    Agree R (scalar v i) (scalar w i) s t fun a b _ _ => a = b := by
  refine (hR.shape h).bindSame ?_
  intro _ _ _ h
  refine (Same.act h).bind ?_
  intro _ _ _ h
  refine (hR.materialize h).bindSame ?_
  intro _ _ _ h
  exact Same.act h

theorem scanRows (h : R s t) (f : Primitive) (start count : Nat) :
    Agree R (scanRows v f start count) (scanRows w f start count) s t fun a b _ _ => a = b := by
  induction count generalizing s t start with
  | zero => exact Agree.pure h rfl
  | succ count ih =>
    refine (hR.isNull h start).bindSame ?_
    intro null s' t' h
    have hrest (first : Option f.Carrier) {s t : Session} (h : R s t) :
        Agree R (do return first :: (← Action.scanRows v f (start + 1) count))
          (do return first :: (← Action.scanRows w f (start + 1) count)) s t fun a b _ _ => a = b := by
      refine (ih h (start + 1)).bindSame ?_
      intro _ _ _ h
      exact Agree.pure h rfl
    cases null with
    | true => exact hrest none h
    | false =>
      simp only [Bool.false_eq_true, if_false, map_eq_pure_bind, bind_assoc]
      refine (hR.element h f start).bindSame ?_
      intro e _ _ h
      simp only [pure_bind]
      exact hrest (some e) h

theorem scan (h : R s t) (f : Primitive) (start count : Nat) :
    Agree R (scan v f start count) (scan w f start count) s t fun a b _ _ => a = b := by
  refine (hR.shape h).bindSame ?_
  intro _ _ _ h
  refine (Same.act h).bind ?_
  intro _ _ _ h
  split
  · exact Agree.throw h
  · exact hR.scanRows h f start count

theorem scalars (h : R s t) (start count : Nat) :
    Agree R (scalars v start count) (scalars w start count) s t fun a b _ _ => a = b := by
  induction count generalizing s t start with
  | zero => exact Agree.pure h rfl
  | succ count ih =>
    refine (hR.scalar h start).bindSame ?_
    intro _ _ _ h
    refine (ih h (start + 1)).bindSame ?_
    intro _ _ _ h
    exact Agree.pure h rfl

theorem view (h : R s t) : Agree R (view v) (view w) s t fun a b _ _ => a = b := by
  refine (hR.shape h).bindSame ?_
  intro _ _ _ h
  refine (hR.materialize h).bindSame ?_
  intro _ _ _ h
  exact Agree.pure h rfl

end Counterparts

/-! ## Likeness -/

/-- A relation in which vectors look the same, and builders are the same. -/
structure Likeness (R : Session → Session → Prop) : Prop where
  shape : ∀ {s t}, R s t → ∀ v, Same R (shape v) s t
  materialize : ∀ {s t}, R s t → ∀ v, Same R (materialize v) s t
  builders : ∀ {s t}, R s t → t.builders = s.builders
  suits : ∀ {s t}, R s t → s.Suited
  setBuilder : ∀ {s t b}, R s t → ∀ name, b.elements.Suits b.kind →
    R (s.setBuilder name b) (t.setBuilder name b)

namespace Likeness

variable (hR : Likeness R)
include hR

/-- A vector is its own counterpart. -/
theorem counterparts (v : String) : Counterparts R v v :=
  ⟨fun h => hR.shape h v, fun h => hR.materialize h v⟩

theorem shapes (h : R s t) (vs : List String) : Same R (vs.mapM Action.shape) s t := by
  induction vs generalizing s t with
  | nil => exact Same.pure h
  | cons v vs ih =>
    rw [List.mapM_cons]
    refine (hR.shape h v).bind ?_
    intro _ _ _ h
    refine (ih h).bind ?_
    intro _ _ _ h
    exact Same.pure h

theorem takeAll (h : R s t) (c : Concatenation) (vs : List String) : Same R (takeAll c vs) s t := by
  induction vs generalizing s t c with
  | nil => exact Same.pure h
  | cons v vs ih =>
    refine (hR.shape h v).bind ?_
    intro _ _ _ h
    refine (hR.materialize h v).bind ?_
    intro _ _ _ h
    refine (Same.act h).bind ?_
    intro taken _ _ h
    exact ih h taken

/-! ### Additions -/

/-- After a builder is found. -/
theorem bindBuilder {f : Builder → Action γ} {g : Builder → Action δ} (h : R s t) (name : String)
    (hf : ∀ b, b.elements.Suits b.kind → Agree R (f b) (g b) s t P) :
    Agree R (builder name >>= f) (builder name >>= g) s t P := by
  simp only [builder, bind_assoc]
  refine Agree.bindGet ?_
  rw [hR.builders h]
  exact Agree.bindNamed h fun b hb => hf b (hR.suits h name b hb)

theorem extended (h : R s t) {b : Builder} (hb : b.elements.Suits b.kind) (a : Addition) :
    Agree R (extended b a) (extended b a) s t fun b' c _ _ => b' = c ∧ b'.elements.Suits b'.kind := by
  cases a with
  | rows r =>
    simp only [Action.extended]
    cases happend : b.append r with
    | error f => exact Agree.throw h
    | ok b' =>
      obtain ⟨hkind, hb'⟩ := Builder.suits_append hb happend
      exact Agree.pure h ⟨rfl, hkind ▸ hb'⟩
  | vector v =>
    refine (hR.shape h v).bind ?_
    intro sh _ _ h
    refine (Same.act h).bind ?_
    intro _ _ _ h
    refine (hR.materialize h v).bind ?_
    intro p _ _ h
    cases happend : b.appendColumn sh p with
    | error f => exact Agree.throw h
    | ok b' =>
      obtain ⟨-, -, e, _, he, -, -, rfl⟩ := Builder.appendColumn_eq_ok happend
      exact Agree.pure h ⟨rfl, Elements.suits_extend hb he⟩

theorem extendedAll (h : R s t) {b : Builder} (hb : b.elements.Suits b.kind) (as : List Addition) :
    Agree R (extendedAll b as) (extendedAll b as) s t fun b' c _ _ =>
      b' = c ∧ b'.elements.Suits b'.kind := by
  induction as generalizing s t b with
  | nil => exact Agree.pure h ⟨rfl, hb⟩
  | cons a as ih =>
    refine (hR.extended h hb a).bind ?_
    intro b' _ _ _ h hb'
    obtain ⟨rfl, hb'⟩ := hb'
    exact ih h hb'

theorem addTo (h : R s t) (name : String) (a : Addition) : Same R (addTo name a) s t := by
  rw [addTo_eq]
  refine hR.bindBuilder h name ?_
  intro before hsuits
  refine (hR.extended h hsuits a).refusal.bind ?_
  rintro _ _ _ _ h (⟨e, rfl, rfl⟩ | ⟨after, _, rfl, rfl, rfl, hafter⟩)
  · exact Same.pure h
  · exact Agree.bindModify (Same.pure (hR.setBuilder h name hafter))

/-- **Adding rows** to a builder, of other vectors too. -/
theorem append (h : R s t) (name : String) (a : Addition) : Same R (append name a) s t := by
  cases a with
  | rows r => exact hR.addTo h name _
  | vector v =>
    refine (hR.shape h v).bind ?_
    intro _ _ _ h
    exact hR.addTo h name _

end Likeness

end Action

end Columnar

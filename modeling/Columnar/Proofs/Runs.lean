/-
Runs of calls on a builder.

A call adds rows, or fails (`Call.perform`), and what it has done to the builder
stays done. But a well-formed call notices everything that it can fail for before
it writes anything, so one that fails leaves the builder as it was
(`Holds.perform_error`). What a builder holds in the end are the rows of the calls
that were taken, in order (`Holds.run`).
-/
import Columnar.Proofs.Building

namespace Columnar.Builder

/-- A call that adds rows to a builder. The data of a column may be missing
where it has to be brought first. -/
inductive Call where
  | rows (r : Rows)
  | column (source : Column) (missing : Option Fault)

namespace Call

/-- The rows that the call adds, as they read. -/
def scalars (k : Kind) : Call → List (Outcome Scalar)
  | rows r => r.entries.map fun e => .ok (e.scalar k)
  | column source _ => source.scalars

/-- Which of the rows that the call adds are null. -/
def nullFlags : Call → List Bool
  | rows r => r.entries.map Entry.isNull
  | column source _ => source.nullFlags

/-- Whether the call brings validity bits or needs them. -/
def needsValidity : Call → Bool
  | rows r => r.entries.any Entry.isNull
  | column source _ => source.payload.validity.isSome

/-- A column that is taken over is well formed. -/
def WellFormed : Call → Prop
  | rows _ => True
  | column source _ => source.WellFormed

/-- Carries a call out. What can be checked without the data of a column is
checked before. -/
def perform : Call → Edit Builder Unit
  | rows r => addRows r
  | column source none => addColumn source.shape source.payload
  | column source (some fault) => do
    Edit.check (·.requireColumn source.shape)
    throw fault

end Call

/-- Carries calls out in order, and tells which of them were taken. -/
def run (b : Builder) : List Call → Builder × List Call
  | [] => (b, [])
  | c :: rest =>
    match c.perform.exec b with
    | (.ok (), b') => ((b'.run rest).1, c :: (b'.run rest).2)
    | (.error _, b') => b'.run rest

/-- The calls that are taken. -/
def taken (b : Builder) (calls : List Call) : List Call := (b.run calls).2

variable {b b' : Builder} {k : Kind} {n : Nat} {rows : List Row} {present : Bool}

theorem appendColumn_of_perform {source : Column} {missing : Option Fault}
    (h : (Call.column source missing).perform.exec b = (.ok (), b')) :
    b.appendColumn source.shape source.payload = .ok b' := by
  cases missing with
  | none => exact Edit.outcome_eq_ok.mpr h
  | some fault =>
    rw [Call.perform, ← Edit.outcome_eq_ok, Edit.outcome_check_bind, Outcome.bind_eq_ok] at h
    obtain ⟨-, -, h⟩ := h
    cases h

/-- **A call that fails** leaves a builder of rows as it was. -/
theorem Holds.perform_error (h : b.Holds k n rows present) {c : Call} (hc : c.WellFormed) {fault : Fault}
    (hb : c.perform.exec b = (.error fault, b')) : b' = b := by
  have houtcome : c.perform.outcome b = .error fault := Edit.outcome_eq_error.mpr (congrArg Prod.fst hb)
  cases c with
  | rows r =>
    cases fault with
    | refused e => exact careful_addRows r b b' e hb
    | outOfBounds => exact absurd houtcome (h.inBounds_append r)
  | column source missing =>
    cases missing with
    | none =>
      cases fault with
      | refused e => exact careful_addColumn source.shape source.payload b b' e hb
      | outOfBounds => exact absurd houtcome (h.inBounds_appendColumn hc)
    | some missing =>
      rw [Call.perform, Edit.exec_check_bind] at hb
      cases hrequire : b.requireColumn source.shape <;> rw [hrequire] at hb <;>
        exact (congrArg Prod.snd hb).symm

/-- What a call that is taken adds is held. -/
theorem Holds.perform (h : b.Holds k n rows present) {c : Call} (hc : c.WellFormed)
    (hb : c.perform.exec b = (.ok (), b')) :
    ∃ more, b'.Holds k n (rows ++ more) (present || c.needsValidity) ∧
      more.map (fun r => .ok (r.scalar k)) = c.scalars k ∧ more.map Row.null = c.nullFlags := by
  cases c with
  | rows r =>
    have hb : b.append r = .ok b' := Edit.outcome_eq_ok.mpr hb
    obtain ⟨-, hsuits, -⟩ := append_eq_ok hb
    rw [h.kind] at hsuits
    refine ⟨_, h.append hb, ?_, by simp [Call.nullFlags, Function.comp_def, Entry.row]⟩
    rw [List.map_map]
    refine List.map_congr_left fun e he => ?_
    simp only [Function.comp_apply, Entry.scalar_row (hsuits e he)]
  | column source missing =>
    obtain ⟨more, hmore⟩ := Column.WellFormed.holds hc
    have hb := appendColumn_of_perform hb
    obtain ⟨hkind, -⟩ := appendColumn_eq_ok hb
    have hkind : source.kind = k := hkind.symm.trans h.kind
    refine ⟨more, h.appendColumn (Column.WellFormed.counted hc) hmore hb, ?_, hmore.flags.symm⟩
    rw [Call.scalars, hmore.scalars, hkind]

/-- **A run's rows** are those of the calls that were taken. -/
theorem Holds.run (h : b.Holds k n rows present) {calls : List Call} (hcalls : ∀ c ∈ calls, c.WellFormed) :
    ∃ more, (b.run calls).1.Holds k n (rows ++ more)
        (present || (b.taken calls).any Call.needsValidity) ∧
      more.map (fun r => .ok (r.scalar k)) = (b.taken calls).flatMap (Call.scalars k) ∧
      more.map Row.null = (b.taken calls).flatMap Call.nullFlags := by
  induction calls generalizing b rows present with
  | nil => exact ⟨[], by simpa [taken, Builder.run] using h, rfl, rfl⟩
  | cons c calls ih =>
    obtain ⟨hc, hrest⟩ := List.forall_mem_cons.mp hcalls
    rcases hx : c.perform.exec b with ⟨fault | ⟨⟩, b'⟩
    · obtain rfl := h.perform_error hc hx
      simpa only [taken, Builder.run, hx] using ih h hrest
    · obtain ⟨first, hfirst, hscalars, hflags⟩ := h.perform hc hx
      obtain ⟨more, hmore, hmore_scalars, hmore_flags⟩ := ih hfirst hrest
      have htaken : b.taken (c :: calls) = c :: b'.taken calls := by simp only [taken, Builder.run, hx]
      have hrun : (b.run (c :: calls)).1 = (b'.run calls).1 := by simp only [Builder.run, hx]
      rw [htaken, hrun]
      refine ⟨first ++ more, by simpa [Bool.or_assoc] using hmore, ?_, ?_⟩
      · rw [List.map_append, hscalars, hmore_scalars, List.flatMap_cons]
      · rw [List.map_append, hflags, hmore_flags, List.flatMap_cons]

end Columnar.Builder

/-
How many bytes validity bits take.

Whoever makes validity bits allocates them for a number of rows, rounded up to the
alignment: a builder for all rows that it has room for (`Builder.Allotted`), a
concatenation and a column of results for the rows that there are. A cast takes over the
bits of its source. Only raw parts can bring bits of another size: bits with more bytes
than are allocated for the rows stay as they come. So the size of validity bits in a
session is a multiple of the alignment, or it is the size of bits that came with raw parts
(`Session.allotted_of_run`).
-/
import Columnar.Proofs.Concatenating
import Columnar.Proofs.Padding

namespace Columnar

namespace Bitmap

variable {b : Bitmap} {m n : Nat}

theorem allocationSize_mono (h : m ≤ n) : allocationSize m ≤ allocationSize n :=
  aligned_mono (Nat.div_le_div_right (Nat.add_le_add_right h 7))

theorem alignment_dvd_allocationSize (n : Nat) : alignment ∣ allocationSize n := alignment_dvd_aligned _

@[simp] theorem length_allValid (n : Nat) : (allValid n).bytes.length = allocationSize n :=
  List.length_replicate

theorem length_eq_of_capacity {a b : Bitmap} (h : a.capacity = b.capacity) :
    a.bytes.length = b.bytes.length := by
  simp only [capacity] at h
  omega

/-- An index counts the bits that are allocated for rows that there is room for. -/
theorem capacity_lt_of_length (h : b.bytes.length = allocationSize n) (hn : n ≤ maxSize) :
    b.capacity < 2 ^ indexBits := by
  simp only [maxSize, indexBits] at hn
  simp only [capacity, h, allocationSize, aligned, alignment, indexBits]
  omega

/-- What is allocated for rows has a bit for each. -/
theorem le_capacity_of_allocationSize (h : allocationSize n ≤ b.bytes.length) : n ≤ b.capacity := by
  refine Nat.le_trans (le_capacity_allValid n) (Nat.mul_le_mul_left 8 ?_)
  rwa [length_allValid]

end Bitmap

/-! ## Builders -/

/-- A builder within its capacity, with validity bits allocated for all of it. -/
structure Builder.Allotted (b : Builder) : Prop where
  room : b.rows ≤ b.capacity
  size : b.capacity ≤ maxSize
  bits : ∀ v, b.validity = some v → v.bytes.length = Bitmap.allocationSize b.capacity

namespace Builder

variable {b b' : Builder}

theorem allotted_of_create {k : Kind} {n : Nat} {withBits : Bool} (h : create k n withBits = .ok b) :
    b.Allotted := by
  obtain ⟨hstorage, rfl⟩ := create_eq_ok h
  refine ⟨Nat.zero_le _, Nat.le_trans (Elements.le_reserved k n) hstorage, fun v hv => ?_⟩
  cases withBits with
  | false => cases hv
  | true =>
    obtain rfl : Bitmap.allValid n = v := by simpa using hv
    exact Bitmap.length_allValid n

theorem allotted_finish (h : b.Allotted) : b.finish.Allotted := ⟨h.room, h.size, by simp [finish, emptied]⟩

theorem allotted_close (h : b.Allotted) : b.close.Allotted := by
  unfold close
  split
  · exact h
  · exact ⟨h.room, h.size, by simp [emptied]⟩

namespace Allotted

/-- New bits are allocated for the whole capacity too. -/
theorem validityOrNew (h : b.Allotted) :
    b.validityOrNew.bytes.length = Bitmap.allocationSize b.capacity := by
  cases hv : b.validity with
  | none => simp [Builder.validityOrNew, hv]
  | some v => simpa [Builder.validityOrNew, hv] using h.bits v hv

theorem push (h : b.Allotted) {e : Entry} (hroom : b.rows < b.capacity) (hb : b.push e = .ok b') :
    b'.Allotted ∧ b'.capacity = b.capacity ∧ b'.rows = b.rows + 1 := by
  cases e with
  | element f v =>
    cases hb
    exact ⟨⟨hroom, h.size, h.bits⟩, rfl, rfl⟩
  | text s =>
    cases hb
    exact ⟨⟨hroom, h.size, h.bits⟩, rfl, rfl⟩
  | null =>
    simp only [Builder.push, pushNull, Outcome.bind_eq_ok, Outcome.ofOption_eq_ok, Outcome.pure_eq_ok,
      Bitmap.clear?, Option.ite_none_right_eq_some, Option.some.injEq] at hb
    obtain ⟨v, ⟨-, rfl⟩, rfl⟩ := hb
    refine ⟨⟨hroom, h.size, fun v hv => ?_⟩, rfl, rfl⟩
    obtain rfl := Option.some.inj hv
    rw [Bitmap.length_eq_of_capacity (Bitmap.capacity_clear b.validityOrNew b.rows), h.validityOrNew]

theorem append (h : b.Allotted) {r : Rows} (hb : b.append r = .ok b') : b'.Allotted := by
  obtain ⟨-, -, hroom, -, hwrite⟩ := append_eq_ok hb
  rcases write_cases b r with ⟨hfold, -⟩ | ⟨f, v, count, rfl⟩
  · rw [hfold] at hwrite
    have htrack := foldlM_track (l := []) (R := fun l (c : Builder) => b.rows + l.length ≤ b.capacity →
      c.Allotted ∧ c.capacity = b.capacity ∧ c.rows = b.rows + l.length) ?_ ?_ hwrite
    · exact (htrack hroom).1
    · intro l e c c' hc he hlen
      rw [List.length_append, List.length_singleton] at hlen ⊢
      obtain ⟨hallotted, hcapacity, hrows⟩ := hc (by omega)
      obtain ⟨hallotted', hcapacity', hrows'⟩ := hallotted.push (by omega) he
      exact ⟨hallotted', hcapacity'.trans hcapacity, by omega⟩
    · exact fun _ => ⟨h, rfl, rfl⟩
  · obtain ⟨e, rfl, -⟩ := pushRepeated_eq_ok hwrite
    rw [Rows.entries, List.length_replicate] at hroom
    exact ⟨hroom, h.size, h.bits⟩

theorem appendColumn (h : b.Allotted) {source : Shape} {p : Payload}
    (hb : b.appendColumn source p = .ok b') : b'.Allotted := by
  obtain ⟨-, hroom, e, v, -, hsome, hnone, rfl⟩ := appendColumn_eq_ok hb
  refine ⟨hroom, h.size, fun w hw => ?_⟩
  cases htheirs : p.validity with
  | none => exact h.bits w ((hnone htheirs).symm.trans hw)
  | some theirs =>
    obtain ⟨mine, hmine, rfl⟩ := hsome theirs htheirs
    obtain rfl := Option.some.inj hw
    rw [Bitmap.length_eq_of_capacity (Bitmap.merge?_eq_some hmine).2.1, h.validityOrNew]

end Allotted

end Builder

/-! ## Columns -/

theorem Operation.length_resultValidity (results : List (Option Number)) :
    (resultValidity results).bytes.length = Bitmap.allocationSize results.length := by
  have hcapacity : (resultValidity results).capacity = (Bitmap.allValid results.length).capacity :=
    capacity_foldl_clear results 0 _
  rw [Bitmap.length_eq_of_capacity hcapacity, Bitmap.length_allValid]

namespace Column

variable {c c' : Column} {odd : Nat → Prop}

/-- A column whose validity bits take what is allocated for the rows at least, and a
multiple of the alignment unless they are of an odd size. An index counts the bits. -/
def Allotted (odd : Nat → Prop) (c : Column) : Prop :=
  ∀ b, c.payload.validity = some b → b.capacity < 2 ^ indexBits ∧
    Bitmap.allocationSize c.rows ≤ b.bytes.length ∧ (alignment ∣ b.bytes.length ∨ odd b.bytes.length)

/-- Bits that are allocated for as many rows or more. -/
theorem allotted_of_length {n : Nat} (hn : c.rows ≤ n) (hsize : n ≤ maxSize)
    (h : ∀ b, c.payload.validity = some b → b.bytes.length = Bitmap.allocationSize n) :
    c.Allotted odd := by
  intro b hb
  refine ⟨Bitmap.capacity_lt_of_length (h b hb) hsize, ?_⟩
  rw [h b hb]
  exact ⟨Bitmap.allocationSize_mono hn, .inl (Bitmap.alignment_dvd_allocationSize n)⟩

theorem Allotted.cast (h : c.Allotted odd) {target : Kind} (hc : c.cast target = .ok c') :
    c'.Allotted odd := by
  obtain ⟨e, rfl, -⟩ := cast_eq_ok hc
  exact h

/-- The bits of a concatenation are allocated for its rows. -/
theorem length_validity_concat {parts : List Column} (hc : concat parts = .ok c) :
    ∀ b, c.payload.validity = some b → b.bytes.length = Bitmap.allocationSize c.rows := by
  intro b hb
  have hcapacity := capacity_concat hc
  rw [hb, Option.map_some] at hcapacity
  split at hcapacity
  · rw [Bitmap.length_eq_of_capacity (Option.some.inj hcapacity), Bitmap.length_allValid]
  · cases hcapacity

theorem length_validity_evaluate {op : Operation} {out : Kind} {l r : Operand}
    (h : op.evaluate out l r = .ok c) : c.rows ≤ maxSize ∧
    ∀ b, c.payload.validity = some b → b.bytes.length = Bitmap.allocationSize c.rows := by
  obtain ⟨form, results, nullable, -, hsize, -, rfl⟩ := Operation.evaluate_eq_ok h
  refine ⟨hsize, fun b hb => ?_⟩
  cases nullable with
  | false => cases hb
  | true =>
    obtain rfl : Operation.resultValidity results = b := by simpa using hb
    exact Operation.length_resultValidity results

/-- **Bits that come with raw parts** are filled up to what is allocated for the rows, and
stay as many as they are if they are more. -/
theorem length_validity_ofParts {k : Kind} {n : Nat} {data : Bytes} {validity : Option Bytes}
    (h : ofParts k n data validity = .ok c) :
    c.rows = n ∧ c.payload.validity.map (·.bytes.length) =
      validity.map fun bytes => max (Bitmap.allocationSize n) bytes.length := by
  obtain ⟨f, -, -, -, -, rfl⟩ := ofParts_eq_ok_iff.mp h
  refine ⟨rfl, ?_⟩
  simp only [ofBits, Option.map_map]
  exact congrArg (validity.map ·) (funext fun bytes => Bitmap.length_ofBytes bytes n)

/-- An index counts the bits of raw parts. -/
theorem capacity_lt_of_ofParts {k : Kind} {n : Nat} {data : Bytes} {validity : Option Bytes} {b : Bitmap}
    (h : ofParts k n data validity = .ok c) (hb : c.payload.validity = some b) :
    b.capacity < 2 ^ indexBits := by
  obtain ⟨f, -, ⟨-, hbits⟩, -, -, rfl⟩ := ofParts_eq_ok_iff.mp h
  obtain ⟨bytes, hbytes, rfl⟩ := Option.map_eq_some_iff.mp hb
  exact hbits bytes hbytes

theorem allotted_ofParts {k : Kind} {n : Nat} {data : Bytes} {validity : Option Bytes}
    (hodd : ∀ bytes, validity = some bytes → Bitmap.allocationSize n < bytes.length →
      ¬ alignment ∣ bytes.length → odd bytes.length)
    (h : ofParts k n data validity = .ok c) : c.Allotted odd := by
  obtain ⟨hrows, hlen⟩ := length_validity_ofParts h
  intro b hb
  refine ⟨capacity_lt_of_ofParts h hb, ?_⟩
  rw [hb, Option.map_some, eq_comm, Option.map_eq_some_iff] at hlen
  obtain ⟨bytes, hbytes, hlen⟩ := hlen
  rw [hrows, ← hlen]
  refine ⟨Nat.le_max_left _ _, ?_⟩
  by_cases hfits : bytes.length ≤ Bitmap.allocationSize n
  · rw [Nat.max_eq_left hfits]
    exact .inl (Bitmap.alignment_dvd_allocationSize n)
  · rw [Nat.max_eq_right (by omega)]
    by_cases hdvd : alignment ∣ bytes.length
    · exact .inl hdvd
    · exact .inr (hodd bytes hbytes (by omega) hdvd)

end Column

/-! ## Everything but raw parts -/

/-- **How much is allotted** is kept by everything but raw parts, and by these too where every size
counts as odd. -/
theorem invariant_allotted {T : Limits} {odd : Nat → Prop} (hodd : T = .unlimited → ∀ size, odd size) :
    Invariant T (fun c => c.WellFormed ∧ c.Allotted odd) (fun b => b.WellFormed ∧ b.Allotted) where
  suits h := h.1.counted.suits
  create h := ⟨invariant_wellFormed.create (T := T) h, Builder.allotted_of_create h⟩
  append hb happend := ⟨invariant_wellFormed.append (T := T) hb.1 happend, hb.2.append happend⟩
  appendColumn hb hc happend :=
    ⟨invariant_wellFormed.appendColumn (T := T) hb.1 hc.1 happend, hb.2.appendColumn happend⟩
  column hb hopen :=
    ⟨invariant_wellFormed.column (T := T) hb.1 hopen, Column.allotted_of_length hb.2.room hb.2.size hb.2.bits⟩
  finish hb := ⟨invariant_wellFormed.finish (T := T) hb.1, Builder.allotted_finish hb.2⟩
  close hb := ⟨invariant_wellFormed.close (T := T) hb.1, Builder.allotted_close hb.2⟩
  ofParts hT h := ⟨Column.ofParts_wellFormed h, Column.allotted_ofParts (fun _ _ _ _ => hodd hT _) h⟩
  cast h hcast := ⟨invariant_wellFormed.cast (T := T) h.1 hcast, h.2.cast hcast⟩
  concat h hc := ⟨Column.concat_wellFormed (fun part hpart => (h part hpart).1) hc,
    Column.allotted_of_length (Nat.le_refl _) (Column.rows_concat_le hc) (Column.length_validity_concat hc)⟩
  operate hl hr h := by
    obtain ⟨l', r', heval⟩ := Column.evaluate_of_operate h
    obtain ⟨hsize, hlen⟩ := Column.length_validity_evaluate heval
    exact ⟨invariant_wellFormed.operate (T := T) hl.1 hr.1 h,
      Column.allotted_of_length (Nat.le_refl _) hsize hlen⟩
  operateScalar hl h := by
    obtain ⟨l', r', heval⟩ := Column.evaluate_of_operateScalar h
    obtain ⟨hsize, hlen⟩ := Column.length_validity_evaluate heval
    exact ⟨invariant_wellFormed.operateScalar (T := T) hl.1 h,
      Column.allotted_of_length (Nat.le_refl _) hsize hlen⟩

/-! ## Every script -/

namespace Command

/-- That raw parts come with more validity bytes than are allocated for their rows, of a
size that is no multiple of the alignment. -/
def BringsOdd (size : Nat) : Command → Prop
  | .make (.ofParts _ rows _ (some bytes)) _ =>
    bytes.length = size ∧ Bitmap.allocationSize rows < size ∧ ¬ alignment ∣ size
  | _ => False

/-- A command that makes nothing of raw parts. -/
theorem within_withoutParts {c : Command} (hplan : ∀ name plan, c = .newRuntime name plan → plan.Faithful)
    (hparts : ∀ k n data validity target, c ≠ .make (.ofParts k n data validity) target) :
    c.Within .withoutParts := by
  cases c with
  | make m target =>
    cases m with
    | ofParts k n data validity => exact absurd rfl (hparts k n data validity target)
    | _ => trivial
  | newRuntime name plan => exact hplan name plan rfl
  | _ => trivial

end Command

namespace Session

open Columnar.Action

variable {s : Session} {odd : Nat → Prop} {config : Option Config} {script : List Command}

/-- Sessions in which validity bits are allotted. -/
abbrev Allotted (odd : Nat → Prop) (s : Session) : Prop :=
  s.Sound (fun c => c.WellFormed ∧ c.Allotted odd) (fun b => b.WellFormed ∧ b.Allotted)

/-- **Every command keeps validity bits allotted**, as long as the odd sizes that it
brings are among those that there are. -/
theorem Allotted.step (hs : s.Allotted odd) {c : Command}
    (hplan : ∀ name plan, c = .newRuntime name plan → plan.Faithful)
    (hodd : ∀ size, c.BringsOdd size → odd size) : (s.step c).2.Allotted odd := by
  by_cases hparts : ∃ k n data validity target, c = .make (.ofParts k n data validity) target
  · obtain ⟨k, n, data, validity, target, rfl⟩ := hparts
    have hmake : Safe (Allotted odd) (ofParts k n data validity) s fun _ _ => True := by
      refine (Safe.act hs).bindSame fun c hc => safe_addColumn hs ⟨Column.ofParts_wellFormed hc, ?_⟩
      refine Column.allotted_ofParts ?_ hc
      rintro bytes rfl hmore hdvd
      exact hodd _ ⟨rfl, hmore, hdvd⟩
    have hreply : Keeps (Allotted odd) (reply (.make (.ofParts k n data validity) target)) s
        fun _ _ => True := by
      refine hmake.bindKeeps ?_
      intro id s' hs' _ _
      refine (keeps_settle hs' target id).bind ?_
      intro _ s₂ hs₂ _
      exact .pure hs₂ trivial
    rw [step_snd]
    exact hreply.keeps
  · refine Sound.step (T := .withoutParts) (invariant_allotted nofun) hs (Command.within_withoutParts hplan ?_)
    rintro k n data validity target rfl
    exact hparts ⟨_, _, _, _, _, rfl⟩

theorem Allotted.run (hs : s.Allotted odd)
    (hplan : ∀ name plan, .newRuntime name plan ∈ script → plan.Faithful)
    (hodd : ∀ c ∈ script, ∀ size, c.BringsOdd size → odd size) : (s.run script).2.Allotted odd := by
  induction script generalizing s with
  | nil => exact hs
  | cons c rest ih =>
    have hstep := hs.step (c := c) (by rintro name plan rfl; exact hplan name plan (by simp))
      (hodd c (by simp))
    by_cases hfault : (s.step c).1 = .stopped (.fault .outOfBounds)
    · rwa [run_cons_of_fault hfault]
    · rw [run_cons_of_ne hfault]
      exact ih hstep (fun name plan hmem => hplan name plan (by simp [hmem]))
        fun c hmem => hodd c (by simp [hmem])

/-- **Validity bits are allotted by the alignment**, but for those of raw parts. In the
session that a script leads to, whatever it reads, makes or adds, the validity bits of a
vector take at least what is allocated for its rows, so that there is a bit for every row,
and `validityBits` tells how many there are. Their size is a multiple of the alignment,
unless it is the size of validity bytes that some command of the script has brought with
raw parts, more than are allocated for their rows and no multiple of the alignment. Raw
parts keep just the bytes that are more than are allocated. -/
theorem allotted_of_run (hplan : ∀ name plan, .newRuntime name plan ∈ script → plan.Faithful) :
    let s := (Session.run { config := config } script).2
    (∀ v c bits, s.shown? v = some c → c.payload.validity = some bits →
      Bitmap.allocationSize c.rows ≤ bits.bytes.length ∧ c.rows ≤ bits.capacity ∧
      (alignment ∣ bits.bytes.length ∧ 8 * alignment ∣ bits.capacity ∨
        ∃ command ∈ script, command.BringsOdd bits.bytes.length) ∧
      ∀ p s', (materialize v).exec s = (.ok p, s') →
        (validityBits v).exec s = (.ok (some bits.capacity), s')) ∧
    ∀ k n data bytes c, Column.ofParts k n data (some bytes) = .ok c →
      ∃ bits, c.payload.validity = some bits ∧
        bits.bytes.length = max (Bitmap.allocationSize n) bytes.length := by
  intro s
  have hs : s.Allotted fun size => ∃ command ∈ script, command.BringsOdd size :=
    Allotted.run (sound_start config) hplan fun c hc size hodd => ⟨c, hc, hodd⟩
  refine ⟨fun v c bits hc hbits => ?_, fun k n data bytes c hc => ?_⟩
  · obtain ⟨-, hle, hsize⟩ := (hs.shown hc).2 bits hbits
    refine ⟨hle, Bitmap.le_capacity_of_allocationSize hle, ?_,
      fun p s' hp => exec_validityBits hs.coherent hc hbits hp⟩
    exact hsize.imp (fun hdvd => ⟨hdvd, Nat.mul_dvd_mul_left 8 hdvd⟩) id
  · obtain ⟨-, hlen⟩ := Column.length_validity_ofParts hc
    exact Option.map_eq_some_iff.mp hlen

set_option maxRecDepth 4000 in
/-- Bits of a builder with more room than rows, and what is cast from it. -/
theorem allotted_of_cast :
    let script : List Command := [.newBuilder "b" .bool 600 true,
      .append "b" (.rows (.value .bool true)), .build "b" .host "v", .make (.cast "v" (.int .w16)) "w"]
    let s := (Session.run { config := none } script).2
    ∃ c bits, s.shown? "w" = some c ∧ c.payload.validity = some bits ∧ c.rows = 1 ∧
      bits.bytes.length = 128 ∧ alignment ∣ bits.bytes.length ∧
      (validityBits "w").exec s = (.ok (some 1024), s) := by
  intro script s
  have hplan : ∀ name plan, .newRuntime name plan ∈ script → plan.Faithful := by simp [script]
  have hc : s.shown? "w" = some ⟨.int .w16, 1, 0,
      ⟨.fixed [1, 0], some ⟨List.replicate 128 0xFF⟩⟩⟩ := by decide +kernel
  obtain ⟨-, -, hsize, hbits⟩ := (allotted_of_run hplan).1 "w" _ _ hc rfl
  refine ⟨_, _, hc, rfl, rfl, List.length_replicate, ?_, hbits _ s rfl⟩
  obtain ⟨hdvd, -⟩ | ⟨command, hmem, hodd⟩ := hsize
  · exact hdvd
  · simp only [script, List.mem_cons, List.not_mem_nil, or_false] at hmem
    rcases hmem with rfl | rfl | rfl | rfl <;> exact hodd.elim

/-- Sixty-five bytes of bits for a single row are kept. -/
theorem not_allotted_of_parts :
    let s := (Session.run { config := none }
      [.make (.ofParts .bool 1 [1] (some (List.replicate 65 0xFF))) "v"]).2
    ∃ c bits, s.shown? "v" = some c ∧ c.payload.validity = some bits ∧ c.rows = 1 ∧
      Bitmap.allocationSize c.rows = 64 ∧ bits.bytes.length = 65 ∧ ¬ alignment ∣ bits.bytes.length ∧
      s.step (.validityBits "v") = (.count (some 520), s) := by
  intro s
  refine ⟨⟨.bool, 1, 0, ⟨.fixed [1], some ⟨List.replicate 65 0xFF⟩⟩⟩, _, by decide +kernel, rfl, rfl, rfl,
    List.length_replicate, by decide, rfl⟩

end Session

end Columnar

/-
Sizes: how far indices and text offsets reach, and what can be allocated.

Allocations are aligned, and half of what an index can reach is too much for
one. Sizes are plain numbers: where they are multiplied or added up past the
greatest index there is no answer (`index?`), as there is none for a request past
`maxSize`, which is less.

Powers of numbers are the core library's in every module that builds on this
one, also where other algebra is in scope.
-/

namespace Columnar

attribute [instance (high)] instPowNat

/-- The bits of sizes and indices. -/
def indexBits : Nat := 64

/-- A size or a place, if it is an index. -/
def index? (n : Nat) : Option Nat := if n < 2 ^ indexBits then some n else none

theorem index?_of_lt {n : Nat} (h : n < 2 ^ indexBits) : index? n = some n := if_pos h

theorem index?_eq_some {n m : Nat} : index? n = some m ↔ n < 2 ^ indexBits ∧ n = m := by
  simp [index?]

/-- The bits of an offset into the text of a string column. -/
def offsetBits : Nat := 32

/-- The most bytes a string column's text may have: offsets still reach its end. -/
def maxTextBytes : Nat := 2 ^ offsetBits - 1

/-- Every allocation is a multiple of this many bytes. -/
def alignment : Nat := 64

/-- The least multiple of the alignment that is no less than `n`. -/
def aligned (n : Nat) : Nat := (n + (alignment - 1)) / alignment * alignment

theorem le_aligned (n : Nat) : n ≤ aligned n := by
  simp only [aligned, alignment]; omega

theorem alignment_dvd_aligned (n : Nat) : alignment ∣ aligned n := Nat.dvd_mul_left _ _

theorem aligned_mono {m n : Nat} (h : m ≤ n) : aligned m ≤ aligned n := by
  simp only [aligned, alignment]
  omega

/-- The greatest size of one allocation. -/
def maxSize : Nat := 2 ^ (indexBits - 1) - 1

/-- The sum of sizes. -/
def total : List Nat → Nat
  | [] => 0
  | n :: rest => n + total rest

end Columnar

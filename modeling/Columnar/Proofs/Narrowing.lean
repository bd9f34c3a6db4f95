/-
Sums, differences and products in fewer bits.

What a width holds of a sum, a difference or a product is a matter of what it holds of the operands,
so it can be taken of the result in any width that is no narrower (`Operation.wrapped?_narrow`). That
is not so of quotients and remainders. Operands of all kinds come to integers before they are put into
the width of the output, floats too, and rows without a result are zeros in every width. So an
operation that is carried out in a wide kind and cast to a narrow one is the operation in the narrow
kind (`Column.operate_narrow`), goes out of bounds where that does, and is refused where that is.
-/
import Columnar.Proofs.Recasting

namespace Columnar

open Primitive

variable {op : Operation} {m n : Width} {wide narrow : Kind}

/-! ## Residues -/

namespace Operation

/-- The operations whose residues those of the operands tell. -/
def modular : List Operation := [.add, .sub, .rsub, .mul]

theorem modular_subset : modular ⊆ integral := by decide

/-- **The residue of a result** is told by those of the operands. -/
theorem wrapped?_narrow (hop : op ∈ modular) (h : n.bytes ≤ m.bytes) (x y : Int) :
    (op.wrapped? m x y).map (·.bmod (2 ^ n.bits)) =
      op.wrapped? n (x.bmod (2 ^ n.bits)) (y.bmod (2 ^ n.bits)) := by
  cases op with
  | add => exact congrArg some ((bmod_bmod_of_le h _).trans (Int.add_bmod x y _))
  | sub => exact congrArg some ((bmod_bmod_of_le h _).trans (Int.sub_bmod x y _))
  | rsub => exact congrArg some ((bmod_bmod_of_le h _).trans (Int.sub_bmod y x _))
  | mul => exact congrArg some ((bmod_bmod_of_le h _).trans (Int.mul_bmod x y _))
  | _ => exact absurd hop (by decide)

/-- An operation leaves the same residue in a width, whether it is carried out in that or in a
wider one. -/
theorem apply_narrow (hop : op ∈ modular) (h : n.bytes ≤ m.bytes) (a b : Number) :
    (op.apply (.int m) a b).map (fun x => x.toInt.bmod (2 ^ n.bits)) =
      (op.apply (.int n) a b).map (fun x => x.toInt.bmod (2 ^ n.bits)) := by
  have hmem := modular_subset hop
  calc
    _ = ((op.apply (.int m) a b).map (fun x => x.toInt.bmod (2 ^ m.bits))).map (·.bmod (2 ^ n.bits)) := by
      simp only [Option.map_map, Function.comp_def, bmod_bmod_of_le h]
    _ = (op.wrapped? m (a.toInt.bmod (2 ^ m.bits)) (b.toInt.bmod (2 ^ m.bits))).map (·.bmod (2 ^ n.bits)) := by
      rw [apply_int hmem]
    _ = op.wrapped? n (a.toInt.bmod (2 ^ n.bits)) (b.toInt.bmod (2 ^ n.bits)) := by
      rw [wrapped?_narrow hop h, bmod_bmod_of_le h, bmod_bmod_of_le h]
    _ = _ := (apply_int hmem n a b).symm

end Operation

/-! ## Rows -/

namespace Row

/-- A row without a result writes zero. -/
theorem signed_ofResult (w : Width) (result : Option Number) :
    signed w (ofResult (.int w) result).cell = (result.elim 0 Number.toInt).bmod (2 ^ w.bits) := by
  cases result with
  | none => cases w <;> rfl
  | some x => exact Number.signed_write w x

/-- **A row of results** in a narrower kind, where it is told by the residue. -/
theorem recast_ofResult (hwide : wide.primitive? = some (.int m)) (hnarrow : narrow.primitive? = some (.int n))
    (h : n.bytes ≤ m.bytes) {x y : Option Number}
    (hxy : x.map (fun i => i.toInt.bmod (2 ^ n.bits)) = y.map (fun i => i.toInt.bmod (2 ^ n.bits))) :
    (ofResult (.int m) x).recast wide narrow = ofResult (.int n) y := by
  have hnull : x.isNone = y.isNone := by
    rw [← Option.isNone_map, hxy, Option.isNone_map]
  have hresidue : (x.elim 0 Number.toInt).bmod (2 ^ n.bits) = (y.elim 0 Number.toInt).bmod (2 ^ n.bits) := by
    cases x with
    | none => cases y with
      | none => rfl
      | some _ => cases hnull
    | some _ => cases y with
      | none => cases hnull
      | some _ => exact Option.some.inj hxy
  have hcell : wide.recast narrow (ofResult (.int m) x).cell = (ofResult (.int n) y).cell := by
    refine eq_of_signed (Kind.length_recast hwide hnarrow (length_cell_ofResult _ x))
      (length_cell_ofResult _ y) ?_
    rw [Kind.signed_recast hwide hnarrow, Number.read_int, Number.toInt, signed_ofResult, signed_ofResult,
      bmod_bmod_of_le h, hresidue]
  rw [recast, null_ofResult, hnull, hcell, ← null_ofResult (.int n)]

end Row

/-! ## Columns -/

namespace Operation

/-- Rows of results, each in a narrower kind. -/
theorem results_narrow (hop : op ∈ modular) (hwide : wide.primitive? = some (.int m))
    (hnarrow : narrow.primitive? = some (.int n)) (h : n.bytes ≤ m.bytes) (l r : Operand) :
    ((op.results (.int m) l r).map (Row.ofResult (.int m))).map (Row.recast wide narrow) =
      (op.results (.int n) l r).map (Row.ofResult (.int n)) := by
  simp only [results, List.map_zipWith]
  congr 1
  funext a b
  refine Row.recast_ofResult hwide hnarrow h ?_
  cases a with
  | none => rfl
  | some a =>
    cases b with
    | none => rfl
    | some b => exact apply_narrow hop h a b

/-- **Results in a wide kind**, cast to a narrow one, are the results in that. -/
theorem evaluate_narrow (hop : op ∈ modular) (hwide : wide.primitive? = some (.int m))
    (hnarrow : narrow.primitive? = some (.int n)) (h : n.bytes ≤ m.bytes) {l r : Operand}
    (hwide_room : Elements.reserved wide l.values.length ≤ maxSize)
    (hnarrow_room : Elements.reserved narrow l.values.length ≤ maxSize) :
    (op.evaluate wide l r >>= (·.cast narrow)) = op.evaluate narrow l r := by
  have hrows := results_narrow hop hwide hnarrow h l r
  have hany : (op.results (.int m) l r).any Option.isNone = (op.results (.int n) l r).any Option.isNone := by
    rw [← any_null_ofResult (.int m), ← any_null_ofResult (.int n), ← hrows, List.any_map, List.any_map,
      List.any_map]
    rfl
  obtain ⟨rule, hrule⟩ := Kind.castRule?_of_forms hwide hnarrow
  have hpacked := packed_resultColumn hwide (l.nullable || r.nullable) (op.results (.int m) l r)
  obtain ⟨d, hd⟩ := Column.cast_ok hpacked.suits hrule
  have hcast := hpacked.cast hrule hd
  rw [hrows, hany] at hcast
  have hresult := hcast.eq (packed_resultColumn hnarrow (l.nullable || r.nullable) (op.results (.int n) l r))
  simp only [evaluate, hwide, hnarrow, Elements.requireStorage, if_pos hwide_room, if_pos hnarrow_room,
    bind, Except.bind, pure, Except.pure, hd, hresult]

end Operation

namespace Column

variable {a b : Column}

/-- **An operation in a wide kind**, cast to a narrow one, is the operation in that. -/
theorem operate_narrow {as bs : List Row} (ha : a.Holds as) (hb : b.Holds bs)
    (hmemory : a.InMemory) (hop : op ∈ Operation.modular) (hwide : wide.primitive? = some (.int m))
    (hnarrow : narrow.primitive? = some (.int n)) (h : n.bytes ≤ m.bytes) :
    (operate op wide a b >>= (·.cast narrow)) = operate op narrow a b := by
  have hmem := Operation.modular_subset hop
  have hsame : op.requireColumns wide a.shape b.shape = op.requireColumns narrow a.shape b.shape := by
    simp only [Operation.requireColumns, Operation.requireOutput_of_integral hmem hwide,
      Operation.requireOutput_of_integral hmem hnarrow]
  cases hchecks : op.requireColumns narrow a.shape b.shape with
  | error fault => simp only [operate, hsame, hchecks, bind, Except.bind]
  | ok _ =>
    obtain ⟨ha_kind, hb_kind, -, -⟩ := Operation.requireColumns_eq_ok.mp hchecks
    obtain ⟨f, hf⟩ := Kind.primitive_of_arithmetic ha_kind
    obtain ⟨g, hg⟩ := Kind.primitive_of_arithmetic hb_kind
    have hl := Operand.ofPayload_of_holds ha hf
    have hwide_room := hmemory.reserved_le ha hf hwide
    have hnarrow_room := hmemory.reserved_le ha hf hnarrow
    rw [← Operand.length_values hl] at hwide_room hnarrow_room
    have hevaluate := Operation.evaluate_narrow (r := ⟨bs.map (Row.number g), b.payload.validity.isSome⟩)
      hop hwide hnarrow h hwide_room hnarrow_room
    simpa only [operate, hsame, hchecks, hl, Operand.ofPayload_of_holds hb hg, bind, Except.bind]
      using hevaluate

end Column

/-! ## Every reachable session -/

namespace Session

variable {s : Session} {l r u w : String} {a b : Column}

/-- **Narrowing commutes with arithmetic that wraps.** In every session that commands lead to, a sum,
a difference or a product of two vectors, such as memory holds, in a kind of integers or dates and
then cast to one that is no wider, yields the same as in that kind at once, unless a device fails to
bring some data. Vectors of numbers or dates with as many rows have one in any case. -/
theorem operate_narrowed (hs : s.Reachable .unlimited) (ha : s.shown? l = some a)
    (hb : s.shown? r = some b) (hmemory : a.InMemory) (hop : op ∈ Operation.modular)
    (hwide : wide.primitive? = some (.int m)) (hnarrow : narrow.primitive? = some (.int n))
    (hwidths : n.bytes ≤ m.bytes) (hu : s.vectors.find? u = none) (hw : s.vectors.find? w = none)
    (hne : u ≠ w) :
    s.Yields [.make (.operate op wide l r) u, .make (.cast u narrow) w] w (Column.operate op narrow a b) ∧
      s.Yields [.make (.operate op narrow l r) w] w (Column.operate op narrow a b) ∧
      ((a.kind.isNumeric ∨ a.kind.isTemporal) → (b.kind.isNumeric ∨ b.kind.isTemporal) →
        a.rows = b.rows → ∃ c, Column.operate op narrow a b = .ok c) := by
  have hsound := hs.sound invariant_wellFormed
  have hmem := Operation.modular_subset hop
  obtain ⟨as, has⟩ := (hsound.shown ha).holds
  obtain ⟨bs, hbs⟩ := (hsound.shown hb).holds
  refine ⟨?_, yields_make hs (Action.comesTo_operate hsound.coherent ha hb) hw, ?_⟩
  · rw [← Column.operate_narrow has hbs hmemory hop hwide hnarrow hwidths]
    refine yields_make_cast hs (Action.comesTo_operate hsound.coherent ha hb) hu hw hne fun d hd => .inr ?_
    obtain ⟨hchecks, -⟩ := Column.operate_eq_ok.mp hd
    obtain ⟨ha_kind, -⟩ := Operation.requireColumns_eq_ok.mp hchecks
    obtain ⟨f, hf⟩ := Kind.primitive_of_arithmetic ha_kind
    exact (Column.rows_operate hd).1 ▸ hmemory.reserved_le has hf hnarrow
  · intro ha_kind hb_kind hrows
    obtain ⟨f, hf⟩ := Kind.primitive_of_arithmetic ha_kind
    obtain ⟨g, hg⟩ := Kind.primitive_of_arithmetic hb_kind
    have hchecks : op.requireColumns narrow a.shape b.shape = .ok () :=
      Operation.requireColumns_ok ha_kind hb_kind (Operation.requireOutput_of_integral hmem hnarrow) hrows
    have hroom := hmemory.reserved_le has hf hnarrow
    obtain ⟨c, hc, -⟩ := Column.operate_rows has hbs hf hg hnarrow hchecks hroom
    exact ⟨c, hc⟩

/-- A session with three doubles on the host, the last of them too large for a word, and as many
16-bit integers on a device, the second of them null. -/
def factors : Session := (Session.run { config := none } [
  .make (.ofParts (.float .double) 3 [0x33, 0x33, 0x33, 0x33, 0x33, 0xCB, 0x72, 0x40,
    0, 0, 0, 0, 0, 0, 0xF8, 0xBF, 1, 0, 0, 0, 0, 0, 0, 0x44] none) "a",
  .newRuntime "r" Runtime.faultless.plan,
  .newBuilder "x" (.int .w16) 3 false,
  .append "x" (.rows (.options (.int .w16) [some (1000 : BitVec 16), none, some (-3 : BitVec 16)])),
  .build "x" (.runtime "r") "b"]).2

theorem reachable_factors : factors.Reachable .unlimited := by
  refine (Reachable.start none).run ?_
  simp [Command.Within, faithful_faultless]

set_option maxRecDepth 4000 in
/-- Products in 32 and in 16 bits: the first takes more bits than 16, and the last is of the word that
its first factor wraps to. -/
theorem operate_narrowed_mul :
    let a : Column := ⟨.float .double, 3, 0, ⟨.fixed [0x33, 0x33, 0x33, 0x33, 0x33, 0xCB, 0x72, 0x40,
      0, 0, 0, 0, 0, 0, 0xF8, 0xBF, 1, 0, 0, 0, 0, 0, 0, 0x44], none⟩⟩
    let b : Column := ⟨.int .w16, 3, 1,
      ⟨.fixed [0xE8, 3, 0, 0, 0xFD, 0xFF], some ⟨0xFD :: List.replicate 63 0xFF⟩⟩⟩
    let products : Column := ⟨.int .w16, 3, 1,
      ⟨.fixed [0xE0, 0x93, 0, 0, 0, 0xA0], some ⟨0xFD :: List.replicate 63 0xFF⟩⟩⟩
    factors.shown? "a" = some a ∧ factors.shown? "b" = some b ∧ a.InMemory ∧
      (factors.run [.make (.operate .mul .date "a" "b") "u", .make (.cast "u" (.int .w16)) "w"]).2.Displays
        "w" products ∧
      (factors.run [.make (.operate .mul (.int .w16) "a" "b") "w"]).2.Displays "w" products := by
  intro a b products
  have ha : factors.shown? "a" = some a := by decide +kernel
  have hb : factors.shown? "b" = some b := by decide +kernel
  have hmemory : a.InMemory := by
    unfold Column.InMemory
    decide
  have hop : Operation.mul ∈ Operation.modular := by decide
  have hdate : Kind.date.primitive? = some (.int .w32) := rfl
  have hshort : (Kind.int .w16).primitive? = some (.int .w16) := rfl
  obtain ⟨hnarrowed, honce, hanswers⟩ := operate_narrowed (u := "u") (w := "w") reachable_factors ha hb
    hmemory hop hdate hshort (by decide) (by decide +kernel) (by decide +kernel) (by decide)
  obtain ⟨c, hc⟩ := hanswers (.inl rfl) (.inl rfl) rfl
  have hdisplays := honce.displays hc (undisturbed_of_all (by decide +kernel))
  have hshown : (factors.run [.make (.operate .mul (.int .w16) "a" "b") "w"]).2.shown? "w" =
      some products := by decide +kernel
  obtain rfl : c = products := Option.some.inj (hdisplays.shown.symm.trans hshown)
  exact ⟨ha, hb, hmemory, hnarrowed.displays hc (undisturbed_of_all (by decide +kernel)), hdisplays⟩

end Session

end Columnar

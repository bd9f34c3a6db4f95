/-
Columns that are a matter of their rows.

A concatenation leaves nothing of a column open: its elements are the cells of its rows one
after the other, and its validity bits, if it has any, are allocated for just as many rows
and set past the last. Such a column is `Packed`, and two packed columns with the same rows
are the same (`Packed.eq`). So whatever leads to the rows of some parts in order leads to
one column: joining groups of them first (`Parts.concat_groups`), appending them to a
builder that has room for just them (`Parts.column_appendAll`), or casting them before they
are joined (`Parts.concat_casts`).
-/
import Columnar.Proofs.Allotting
import Columnar.Proofs.Casting
import Columnar.Proofs.Refusals

namespace Columnar

namespace Column

/-- A column with rows of a kind packed as closely as can be; `present` tells whether it has
validity bits. -/
structure Packed (c : Column) (k : Kind) (held : List Row) (present : Bool) : Prop
    extends Holds c held where
  kind : c.kind = k
  nulls : c.nulls = (held.map Row.null).count true
  bits : c.payload.validity.isSome = present
  allotted : ∀ b, c.payload.validity = some b → b.bytes.length = Bitmap.allocationSize c.rows
  padded : c.Padded

/-- Columns of one kind that can be joined, with the rows that they hold: storage can be set aside
for all of them, and offsets reach the end of their text. -/
structure Parts (k : Kind) (parts : List Column) (held : List Row) : Prop where
  holds : AllHold parts held
  nulls : ∀ part ∈ parts, part.nulls = part.nullFlags.count true
  kind : ∀ part ∈ parts, part.kind = k
  room : Elements.reserved k held.length ≤ maxSize
  fits : Elements.Fits k (held.map Row.cell)

/-- Whether some of the columns have validity bits. -/
def anyBits (parts : List Column) : Bool := parts.any fun part => part.payload.validity.isSome

variable {c c' : Column} {k : Kind} {held : List Row} {present : Bool} {parts : List Column}

/-- **Rows packed as closely as can be** are one column. -/
theorem Packed.eq (h : c.Packed k held present) (h' : c'.Packed k held present) : c = c' := by
  have hrows : c.rows = c'.rows := h.length.symm.trans h'.length
  have hkind : c.kind = c'.kind := h.kind.trans h'.kind.symm
  have helements : c.payload.elements = c'.payload.elements := by
    rw [h.elements, h'.elements, hkind]
  have hvalidity : c.payload.validity = c'.payload.validity := by
    have hbits := h.bits.trans h'.bits.symm
    cases hb : c.payload.validity with
    | none =>
      rw [hb, eq_comm, Option.isSome_none, Option.isSome_eq_false_iff,
        Option.isNone_iff_eq_none] at hbits
      exact hbits.symm
    | some b =>
      rw [hb] at hbits
      obtain ⟨b', hb'⟩ := Option.isSome_iff_exists.mp hbits.symm
      rw [hb']
      have hlen : b.bytes.length = b'.bytes.length := by
        rw [h.allotted b hb, h'.allotted b' hb', hrows]
      refine congrArg some (Bitmap.eq_of_isSet hlen fun i hi => ?_)
      -- Below the row count the bits are the null marks, and past it they are set.
      by_cases hlt : i < c.rows
      · have hflags : c.nullFlags = c'.nullFlags := h.flags.trans h'.flags.symm
        simp only [nullFlags, Bitmap.nullFlags, hb, hb', ← hrows, List.map_inj_left, List.mem_range,
          Option.any_some] at hflags
        exact Bool.not_inj_iff.mp (hflags i hlt)
      · have hcapacity : b'.capacity = b.capacity := by simp only [Bitmap.capacity, hlen]
        rw [h.padded b hb i (by omega) hi, h'.padded b' hb' i (by omega) (hcapacity ▸ hi)]
  have hnulls : c.nulls = c'.nulls := h.nulls.trans h'.nulls.symm
  obtain ⟨kind, rows, nulls, elements, validity⟩ := c
  obtain ⟨kind', rows', nulls', elements', validity'⟩ := c'
  simp_all

theorem Packed.wellFormed (h : c.Packed k held present) : c.WellFormed where
  holds := ⟨held, h.toHolds⟩
  nulls := by rw [h.nulls, h.flags]

/-! ## Parts -/

theorem AllHold.of_append {as bs : List Column} (h : AllHold (as ++ bs) held) :
    ∃ a b, held = a ++ b ∧ AllHold as a ∧ AllHold bs b := by
  induction as generalizing held with
  | nil => exact ⟨[], held, rfl, .nil, h⟩
  | cons c as ih =>
    cases h with
    | cons hc hrest =>
      obtain ⟨a, b, rfl, ha, hb⟩ := ih hrest
      exact ⟨_, b, (List.append_assoc _ _ _).symm, .cons hc ha, hb⟩

/-- Text that fits can be taken apart. -/
theorem fits_of_append {a b : List Row} (h : Elements.Fits k ((a ++ b).map Row.cell)) :
    Elements.Fits k (a.map Row.cell) ∧ Elements.Fits k (b.map Row.cell) := by
  simp only [Elements.Fits, List.map_append, List.flatten_append, List.length_append] at h ⊢
  exact ⟨fun hk => Nat.le_trans (Nat.le_add_right _ _) (h hk),
    fun hk => Nat.le_trans (Nat.le_add_left _ _) (h hk)⟩

theorem anyBits_append (as bs : List Column) : anyBits (as ++ bs) = (anyBits as || anyBits bs) :=
  List.any_append

/-- **Well-formed columns of one kind** can be joined, if storage for their rows can be set aside
and offsets reach the end of their text. -/
theorem parts_of_wellFormed (h : ∀ part ∈ parts, part.WellFormed ∧ part.kind = k)
    (hroom : Elements.reserved k (total (parts.map rows)) ≤ maxSize)
    (htext : k = .string →
      total (parts.map fun part => part.payload.elements.data.length) ≤ maxTextBytes) :
    ∃ held, Parts k parts held := by
  obtain ⟨held, hheld⟩ := allHold_of_wellFormed fun part hpart => (h part hpart).1
  have hkind : ∀ part ∈ parts, part.kind = k := fun part hpart => (h part hpart).2
  refine ⟨held, hheld, fun part hpart => (h part hpart).1.nulls, hkind, hheld.length ▸ hroom, ?_⟩
  rintro rfl
  rw [hheld.length_text hkind]
  exact htext rfl

namespace Parts

theorem wellFormed (h : Parts k parts held) : ∀ part ∈ parts, part.WellFormed := by
  have hholds := h.holds
  have hnulls := h.nulls
  clear h
  induction hholds with
  | nil => simp
  | cons hpart _ ih =>
    rw [List.forall_mem_cons] at hnulls ⊢
    exact ⟨⟨⟨_, hpart⟩, hnulls.1⟩, ih hnulls.2⟩

theorem cons (hc : c.Packed k held present) {rest : List Row} (h : Parts k parts rest)
    (hroom : Elements.reserved k (held ++ rest).length ≤ maxSize)
    (hfits : Elements.Fits k ((held ++ rest).map Row.cell)) : Parts k (c :: parts) (held ++ rest) where
  holds := .cons hc.toHolds h.holds
  nulls := List.forall_mem_cons.mpr ⟨hc.wellFormed.nulls, h.nulls⟩
  kind := List.forall_mem_cons.mpr ⟨hc.kind, h.kind⟩
  room := hroom
  fits := hfits

theorem of_append {as bs : List Column} (h : Parts k (as ++ bs) held) :
    ∃ a b, held = a ++ b ∧ Parts k as a ∧ Parts k bs b := by
  obtain ⟨a, b, rfl, ha, hb⟩ := h.holds.of_append
  obtain ⟨ha_fits, hb_fits⟩ := fits_of_append h.fits
  have hroom {n : Nat} (hn : n ≤ (a ++ b).length) : Elements.reserved k n ≤ maxSize :=
    Nat.le_trans (Elements.reserved_mono k hn) h.room
  rw [List.length_append] at hroom
  refine ⟨a, b, rfl, ?_, ?_⟩
  · exact ⟨ha, fun part hpart => h.nulls part (by simp [hpart]),
      fun part hpart => h.kind part (by simp [hpart]), hroom (Nat.le_add_right _ _), ha_fits⟩
  · exact ⟨hb, fun part hpart => h.nulls part (by simp [hpart]),
      fun part hpart => h.kind part (by simp [hpart]), hroom (Nat.le_add_left _ _), hb_fits⟩

/-- **A concatenation is packed.** -/
theorem packed (h : Parts k parts held) (hne : parts ≠ []) (hc : Column.concat parts = .ok c) :
    c.Packed k held (anyBits parts) := by
  have hholds := concat_holds h.holds hc
  obtain ⟨-, hcounted, hpadded⟩ :=
    concat_counted (fun part hpart => (h.wellFormed part hpart).counted) hc
  refine ⟨hholds, kind_concat hne h.kind hc, by rw [hcounted.nulls, hholds.flags], ?_,
    length_validity_concat hc, hpadded⟩
  rw [← Option.isSome_map (f := Bitmap.capacity), capacity_concat hc, anyBits]
  cases parts.any fun part => part.payload.validity.isSome <;> rfl

theorem concat (h : Parts k parts held) (hne : parts ≠ []) :
    ∃ c, Column.concat parts = .ok c ∧ c.Packed k held (anyBits parts) := by
  obtain ⟨c, hc⟩ := concat_ok hne h.kind h.holds (h.holds.length ▸ h.room) h.fits
  exact ⟨c, hc, h.packed hne hc⟩

/-! ## Groups -/

/-- Groups of parts, each joined, have the rows of all parts. -/
theorem groups {groups : List (List Column)} (h : Parts k groups.flatten held)
    (hgroups : ∀ group ∈ groups, group ≠ []) :
    ∃ wholes, groups.map Column.concat = wholes.map .ok ∧ Parts k wholes held ∧
      anyBits wholes = anyBits groups.flatten := by
  induction groups generalizing held with
  | nil => exact ⟨[], rfl, h, rfl⟩
  | cons group groups ih =>
    obtain ⟨hne, hgroups⟩ := List.forall_mem_cons.mp hgroups
    obtain ⟨a, b, rfl, ha, hb⟩ := h.of_append
    obtain ⟨whole, hwhole, hpacked⟩ := ha.concat hne
    obtain ⟨wholes, hwholes, hparts, hbits⟩ := ih hb hgroups
    refine ⟨whole :: wholes, by rw [List.map_cons, List.map_cons, hwhole, hwholes],
      cons hpacked hparts h.room h.fits, ?_⟩
    rw [List.flatten_cons, anyBits_append, ← hbits, ← hpacked.bits]
    rfl

/-- **Joining groups first** changes nothing. -/
theorem concat_groups {groups : List (List Column)} (h : Parts k groups.flatten held) (hne : groups ≠ [])
    (hgroups : ∀ group ∈ groups, group ≠ []) :
    ∃ wholes c, groups.map Column.concat = wholes.map .ok ∧ Column.concat wholes = .ok c ∧
      Column.concat groups.flatten = .ok c := by
  obtain ⟨wholes, hwholes, hparts, hbits⟩ := h.groups hgroups
  have hwholes_ne : wholes ≠ [] := by
    rintro rfl
    exact hne (List.map_eq_nil_iff.mp hwholes)
  have hflat_ne : groups.flatten ≠ [] := by
    obtain ⟨group, hgroup⟩ := List.exists_mem_of_ne_nil groups hne
    exact fun hnil => hgroups group hgroup (List.flatten_eq_nil_iff.mp hnil group hgroup)
  obtain ⟨c, hc, hpacked⟩ := hparts.concat hwholes_ne
  obtain ⟨d, hd, hpacked'⟩ := h.concat hflat_ne
  rw [hbits] at hpacked
  exact ⟨wholes, c, hwholes, hc, hpacked.eq hpacked' ▸ hd⟩

end Parts

/-! ## Casts -/

variable {t : Kind} {rule : CastRule}

/-- **A cast of packed rows** is packed, with the rows in the other form. -/
theorem Packed.cast (h : c.Packed k held present) (hrule : k.castRule? t = some rule)
    (hc : c.cast t = .ok c') : c'.Packed t (held.map (Row.recast k t)) present := by
  obtain rfl := h.kind
  have hholds := h.toHolds.recast hrule hc
  obtain ⟨e, rfl, -⟩ := cast_eq_ok hc
  have hnulls : (held.map (Row.recast c.kind t)).map Row.null = held.map Row.null := by
    rw [List.map_map]
    rfl
  exact ⟨hholds, rfl, hnulls ▸ h.nulls, h.bits, h.allotted, h.padded⟩

/-- Text still fits, for it is cast to nothing but text. -/
theorem fits_recast (hfits : Elements.Fits k (held.map Row.cell))
    (hrule : k.castRule? t = some rule) :
    Elements.Fits t ((held.map (Row.recast k t)).map Row.cell) := by
  by_cases hne : rule = .identity
  · obtain rfl := castRule?_eq_identity (hne ▸ hrule)
    simpa [Row.recast_self] using hfits
  · obtain ⟨-, g, -, hg⟩ := Kind.forms_of_castRule? hrule hne
    exact Elements.fits_of_fixed hg _

namespace Parts

/-- Parts that are cast have the rows of the parts in the other form. -/
theorem casts (h : Parts k parts held) (hrule : k.castRule? t = some rule)
    (hroom : Elements.reserved t held.length ≤ maxSize) :
    ∃ ds, parts.map (cast · t) = ds.map .ok ∧ Parts t ds (held.map (Row.recast k t)) ∧
      anyBits ds = anyBits parts := by
  suffices ∃ ds, parts.map (cast · t) = ds.map .ok ∧ AllHold ds (held.map (Row.recast k t)) ∧
      (∀ d ∈ ds, d.nulls = d.nullFlags.count true ∧ d.kind = t) ∧ anyBits ds = anyBits parts by
    obtain ⟨ds, hds, hholds, hmem, hbits⟩ := this
    exact ⟨ds, hds, ⟨hholds, fun d hd => (hmem d hd).1, fun d hd => (hmem d hd).2,
      by simpa using hroom, fits_recast h.fits hrule⟩, hbits⟩
  have hwell := h.wellFormed
  obtain ⟨hholds, -, hkind, -, -⟩ := h
  clear hroom
  induction hholds with
  | nil => exact ⟨[], rfl, .nil, by simp, rfl⟩
  | @cons part parts rows held hpart _ ih =>
    obtain ⟨hpart_well, hwell⟩ := List.forall_mem_cons.mp hwell
    obtain ⟨rfl, hkind⟩ := List.forall_mem_cons.mp hkind
    obtain ⟨ds, hds, hholds, hmem, hbits⟩ := ih hwell hkind
    obtain ⟨d, hd⟩ := cast_ok hpart_well.counted.suits hrule
    obtain ⟨-, hcounted⟩ := hpart_well.counted.cast hd
    have hrows := hpart.recast hrule hd
    obtain ⟨e, rfl, -⟩ := cast_eq_ok hd
    refine ⟨_ :: ds, by rw [List.map_cons, List.map_cons, hd, hds], ?_, ?_, ?_⟩
    · rw [List.map_append]
      exact .cons hrows hholds
    · exact List.forall_mem_cons.mpr ⟨⟨hcounted.nulls, rfl⟩, hmem⟩
    · simp only [anyBits, List.any_cons] at hbits ⊢
      rw [hbits]

/-- **Casting parts first** changes nothing. -/
theorem concat_casts (h : Parts k parts held) (hne : parts ≠ []) (hrule : k.castRule? t = some rule)
    (hroom : Elements.reserved t held.length ≤ maxSize) :
    ∃ whole ds c, Column.concat parts = .ok whole ∧ whole.cast t = .ok c ∧
      parts.map (cast · t) = ds.map .ok ∧ Column.concat ds = .ok c := by
  obtain ⟨whole, hwhole, hpacked⟩ := h.concat hne
  obtain ⟨c, hc⟩ := cast_ok hpacked.wellFormed.counted.suits (hpacked.kind ▸ hrule)
  obtain ⟨ds, hds, hparts, hbits⟩ := h.casts hrule hroom
  have hds_ne : ds ≠ [] := by
    rintro rfl
    exact hne (List.map_eq_nil_iff.mp hds)
  obtain ⟨d, hd, hpacked'⟩ := hparts.concat hds_ne
  rw [hbits] at hpacked'
  exact ⟨whole, ds, c, hwhole, hc, hds, (hpacked.cast hrule hc).eq hpacked' ▸ hd⟩

end Parts

end Column

/-! ## Builders -/

namespace Builder

open Column

variable {b : Builder} {k : Kind} {n : Nat} {held rows : List Row} {present : Bool} {parts : List Column}

/-- **The column of a full builder** is packed. -/
theorem Holds.packed (h : b.Holds k held.length held present) (hallotted : b.Allotted) :
    b.column.Packed k held present where
  toHolds := h.column
  kind := h.kind
  nulls := h.nulls
  bits := h.bits
  allotted v hv := by
    have hrows : b.column.rows = b.capacity := by
      rw [h.capacity, ← h.column.length]
    rw [hrows]
    exact hallotted.bits v hv
  padded := h.toMarked.padded

/-- **Columns that there is room for** are taken over one after the other. -/
theorem Holds.appendAll (h : b.Holds k n held present) (hallotted : b.Allotted)
    (hparts : AllHold parts rows) (hwell : ∀ part ∈ parts, part.WellFormed ∧ part.kind = k)
    (hroom : (held ++ rows).length ≤ n) (hfits : Elements.Fits k ((held ++ rows).map Row.cell)) :
    ∃ b', parts.foldlM (fun b part => b.appendColumn part.shape part.payload) b = .ok b' ∧
      b'.Holds k n (held ++ rows) (present || anyBits parts) ∧ b'.Allotted := by
  induction hparts generalizing b held present with
  | nil => exact ⟨b, rfl, by simpa [anyBits] using h, hallotted⟩
  | @cons part parts rows rest hpart hrest ih =>
    obtain ⟨⟨hpart_well, hpart_kind⟩, hwell⟩ := List.forall_mem_cons.mp hwell
    rw [← List.append_assoc] at hroom hfits ⊢
    have hroom' : held.length + rows.length ≤ n := by
      rw [List.length_append, List.length_append] at hroom
      omega
    obtain ⟨b₁, hb₁⟩ := h.appendColumn_ok hpart hpart_kind hroom' (fits_of_append hfits).1
    have hholds := h.appendColumn hpart_well.counted hpart hb₁
    obtain ⟨b', hb', hholds', hallotted'⟩ := ih hholds (hallotted.appendColumn hb₁) hwell hroom hfits
    refine ⟨b', by rw [List.foldlM_cons, hb₁]; exact hb', ?_, hallotted'⟩
    rwa [Bool.or_assoc] at hholds'

end Builder

/-- **Appending parts to a builder** that has room for just their rows makes the column that
joining them does. -/
theorem Column.Parts.column_appendAll {k : Kind} {parts : List Column} {held : List Row}
    (h : Parts k parts held) (hne : parts ≠ []) {b : Builder}
    (hb : Builder.create k held.length false = .ok b) :
    ∃ b', parts.foldlM (fun b part => b.appendColumn part.shape part.payload) b = .ok b' ∧
      b'.phase = .opened ∧ Column.concat parts = .ok b'.column := by
  have hparts : ∀ part ∈ parts, part.WellFormed ∧ part.kind = k := fun part hpart =>
    ⟨h.wellFormed part hpart, h.kind part hpart⟩
  obtain ⟨b', hb', hholds, hallotted⟩ := (Builder.holds_of_create hb).appendAll
    (Builder.allotted_of_create hb) h.holds hparts (Nat.le_refl _) h.fits
  obtain ⟨c, hc, hpacked⟩ := h.concat hne
  exact ⟨b', hb', hholds.opened, hpacked.eq (hholds.packed hallotted) ▸ hc⟩

end Columnar

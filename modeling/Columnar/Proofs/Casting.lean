/-
Casts: what becomes of every row.

`CastRule.Means` says what each rule makes of the bytes of an element, whatever the
conversion does. The conversion takes no notice of the rule; that it means the rule
the cast matrix names (`Kind.means_of_castRule?`) is proved form by form. Rows of a
cast column are those of its source, element for element (`Column.Holds.cast_rows`).

Sessions refuse what the matrix has no rule for before any data is brought, and
everything else comes down to the column (`Action.exec_cast`).
-/
import Columnar.Proofs.Concatenating
import Columnar.Proofs.Exactness

namespace Columnar

/-! ## What rules mean -/

namespace Primitive

/-- The integer that bytes write, as two's complement. -/
def signed (w : Width) (cell : Bytes) : Int := BitVec.toInt (decode (.int w) cell)

/-- The float that bytes write. -/
def floating (p : Precision) (cell : Bytes) : Binary p := decode (.float p) cell

/-- The integers of a width are those that it wraps to themselves. -/
theorem bmod_signed {v w : Width} (h : v.bytes ≤ w.bytes) (cell : Bytes) :
    (signed v cell).bmod (2 ^ w.bits) = signed v cell := by
  have hpow : 2 ^ v.bits ≤ 2 ^ w.bits := Nat.pow_le_pow_right (by decide) (Nat.mul_le_mul_left 8 h)
  have hlow : -2 ^ v.bits ≤ 2 * signed v cell := BitVec.le_two_mul_toInt
  have hhigh : 2 * signed v cell < 2 ^ v.bits := BitVec.two_mul_toInt_lt
  have hcast : ((2 ^ v.bits : Nat) : Int) = 2 ^ v.bits := by norm_cast
  exact Int.bmod_eq_of_le_mul_two (by omega) (by omega)

end Primitive

open Primitive in
/-- What a rule makes of the bytes of an element. Integers that a width does not
reach are wrapped into it (`Int.bmod`), those of floats after they were wrapped into
64 bits. -/
def CastRule.Means (rule : CastRule) (source target : Kind) (cell cell' : Bytes) : Prop :=
  match rule, source.primitive?, target.primitive? with
  | .identity, _, _ => cell' = cell
  | .widen, some (.int v), some (.int w) => signed w cell' = signed v cell
  | .truncate, some (.int v), some (.int w) => signed w cell' = (signed v cell).bmod (2 ^ w.bits)
  | .reinterpret, some (.int v), some (.int w) => signed w cell' = (signed v cell).bmod (2 ^ w.bits)
  | .intToFloat, some (.int v), some (.float q) => floating q cell' = Binary.ofInt q (signed v cell)
  | .floatToInt, some (.float p), some (.int w) =>
    signed w cell' = (floating p cell).wrapToInt.bmod (2 ^ w.bits) ∧
      (floating p cell).wrapToInt = (floating p cell).datum.truncated.bmod (2 ^ Width.w64.bits)
  | .floatResize, some (.float p), some (.float q) => floating q cell' = (floating p cell).resize q
  | .boolToNumber, some .bool, some (.int w) => signed w cell' = if cell = [0] then 0 else 1
  | .boolToNumber, some .bool, some (.float q) =>
    (floating q cell').datum =
      if cell = [0] then .finite false 0 q.leastExponent
      else .finite false (2 ^ q.fractionBits) (-q.fractionBits)
  | .numberToBool, some (.int v), some .bool => cell' = if signed v cell = 0 then [0] else [1]
  | .numberToBool, some (.float p), some .bool =>
    cell' = if floating p cell = .ofParts p false 0 ∨ floating p cell = .ofParts p true 0 then [0] else [1]
  | _, _, _ => False

/-- The rules there are between two forms, apart from that of equal kinds. -/
def CastRule.Between (rule : CastRule) : Primitive → Primitive → Prop
  | .int v, .int w => rule = .widen ∧ v.bytes < w.bytes ∨ rule = .truncate ∨ rule = .reinterpret
  | .int _, .float _ => rule = .intToFloat
  | .float _, .int _ => rule = .floatToInt
  | .float p, .float q => rule = .floatResize ∧ p ≠ q
  | .bool, .int _ | .bool, .float _ => rule = .boolToNumber
  | .int _, .bool | .float _, .bool => rule = .numberToBool
  | .bool, .bool => False

/-! ## What the conversion does -/

namespace Number

open Primitive

theorem signed_write (w : Width) (n : Number) :
    signed w (write (.int w) n) = n.toInt.bmod (2 ^ w.bits) := by
  rw [signed, write, decode_encode]
  exact BitVec.toInt_ofInt _

theorem floating_write (q : Precision) (n : Number) : floating q (write (.float q) n) = n.toBinary q := by
  rw [floating, write, decode_encode]
  rfl

theorem write_bool (n : Number) : write .bool n = if n.isZero then [0] else [1] := by
  rw [write, encode, toElement]
  cases n.isZero <;> rfl

theorem read_int (v : Width) (cell : Bytes) : read (.int v) cell = .int (signed v cell) := rfl

theorem read_float (p : Precision) (cell : Bytes) : read (.float p) cell = .float (floating p cell).toDouble :=
  rfl

/-- Any other byte than zero is true. -/
theorem read_bool {cell : Bytes} (h : cell.length = 1) :
    read .bool cell = .int (if cell = [0] then 0 else 1) := by
  obtain ⟨b, rfl⟩ := List.length_eq_one_iff.mp h
  have hdecode : decode .bool [b] = (b.toNat != 0) := by simp [decode, LittleEndian.decode]
  rw [read, hdecode]
  by_cases hb : b = 0
  · subst hb
    rfl
  · have hnat : (b.toNat != 0) = true := bne_iff_ne.mpr fun h => hb (UInt8.toNat_inj.mp h)
    simp [ofElement, hb, hnat]

end Number

namespace Kind

variable {source target : Kind} {rule : CastRule} {f g : Primitive}

/-- **The rule of the cast matrix** is a matter of the forms, up to the widths of integers. -/
theorem between_of_castRule? (hrule : source.castRule? target = some rule) (hne : rule ≠ .identity)
    (hf : source.primitive? = some f) (hg : target.primitive? = some g) : rule.Between f g := by
  rw [castRule?.eq_def] at hrule
  split at hrule
  next => exact absurd (Option.some.inj hrule).symm hne
  next hkinds =>
    cases source <;> cases target <;> cases hf <;> cases hg <;> simp_all [CastRule.Between]
    split at hrule <;> simp_all

open Primitive in
/-- **The conversion means the rule** that the cast matrix names for the two kinds. -/
theorem means_of_castRule? (hrule : source.castRule? target = some rule) (hne : rule ≠ .identity)
    (hf : source.primitive? = some f) (hg : target.primitive? = some g) {cell : Bytes}
    (hcell : cell.length = f.width) :
    rule.Means source target cell (Number.write g (Number.read f cell)) := by
  have hforms := between_of_castRule? hrule hne hf hg
  match f, g, hforms with
  | .int v, .int w, hforms =>
    have hsigned : signed w (Number.write (.int w) (Number.read (.int v) cell)) =
        (signed v cell).bmod (2 ^ w.bits) := Number.signed_write w _
    rcases hforms with ⟨rfl, hlt⟩ | rfl | rfl <;> simp only [CastRule.Means, hf, hg, hsigned]
    exact bmod_signed (Nat.le_of_lt hlt) cell
  | .int v, .float q, hforms =>
    subst hforms
    simp only [CastRule.Means, hf, hg]
    exact Number.floating_write q _
  | .int v, .bool, hforms =>
    subst hforms
    simp only [CastRule.Means, hf, hg, Number.write_bool, Number.read_int, Number.isZero, beq_iff_eq]
  | .float p, .int w, hforms =>
    subst hforms
    simp only [CastRule.Means, hf, hg]
    refine ⟨?_, Binary.wrapToInt_eq_bmod _⟩
    rw [Number.signed_write, Number.read_float, Number.toInt, Binary.wrapToInt_toDouble]
  | .float p, .float q, hforms =>
    obtain ⟨rfl, hpq⟩ := hforms
    simp only [CastRule.Means, hf, hg, Number.floating_write, Number.read_float]
    cases p <;> cases q <;> first | rfl | exact absurd rfl hpq
  | .float p, .bool, hforms =>
    subst hforms
    simp only [CastRule.Means, hf, hg, Number.write_bool, Number.read_float, Number.isZero,
      Binary.isZero_toDouble, Binary.isZero_iff]
  | .bool, .int w, hforms =>
    subst hforms
    simp only [CastRule.Means, hf, hg, Number.signed_write, Number.read_bool hcell, Number.toInt]
    split <;> cases w <;> decide
  | .bool, .float q, hforms =>
    subst hforms
    simp only [CastRule.Means, hf, hg, Number.floating_write, Number.read_bool hcell, Number.toBinary]
    split <;> cases q <;> decide +kernel

/-- There is a rule for all but text and what is not text. -/
theorem castRule?_eq_none : source.castRule? target = none ↔ ¬ (source = .string ↔ target = .string) := by
  cases source <;> cases target <;> simp [castRule?]
  case int.int => split <;> simp
  case float.float => split <;> simp

theorem castRule?_self (k : Kind) : k.castRule? k = some .identity := by
  rw [castRule?.eq_def, if_pos rfl]

theorem rule_eq_identity (hrule : source.castRule? target = some rule) (heq : source = target) :
    rule = .identity := by
  rw [heq, castRule?_self] at hrule
  exact (Option.some.inj hrule).symm

theorem requireCast_of_castRule? (hrule : source.castRule? target = some rule) :
    source.requireCast target = .ok rule := by
  rw [requireCast, hrule]

/-- Only the identity is a rule for text. -/
theorem forms_of_castRule? (hrule : source.castRule? target = some rule) (hne : rule ≠ .identity) :
    ∃ f g, source.primitive? = some f ∧ target.primitive? = some g := by
  have hiff : source = .string ↔ target = .string := by
    refine Decidable.not_not.mp fun h => ?_
    rw [castRule?_eq_none.mpr h] at hrule
    cases hrule
  have hsource : source ≠ .string := by
    rintro rfl
    rw [hiff.mp rfl, castRule?_self] at hrule
    exact hne (Option.some.inj hrule).symm
  cases hf : source.primitive? with
  | none => exact absurd (primitive?_eq_none.mp hf) hsource
  | some f =>
    cases hg : target.primitive? with
    | none => exact absurd (hiff.mpr (primitive?_eq_none.mp hg)) hsource
    | some g => exact ⟨f, g, rfl, rfl⟩

end Kind

/-! ## Rows -/

/-- A cell of one kind in the form of another. -/
def Kind.recast (source target : Kind) (cell : Bytes) : Bytes :=
  match source.primitive?, target.primitive? with
  | some f, some g => if source = target then cell else Number.write g (Number.read f cell)
  | _, _ => cell

@[simp] theorem Kind.recast_self (k : Kind) (cell : Bytes) : k.recast k cell = cell := by
  unfold recast
  split
  · exact if_pos rfl
  · rfl

theorem Kind.recast_of_forms {source target : Kind} (hne : source ≠ target) {f g : Primitive}
    (hf : source.primitive? = some f) (hg : target.primitive? = some g) (cell : Bytes) :
    source.recast target cell = Number.write g (Number.read f cell) := by
  simp only [recast, hf, hg, if_neg hne]

/-- A row of one kind in the form of another, as null as it is. -/
def Row.recast (source target : Kind) (r : Row) : Row := ⟨r.null, source.recast target r.cell⟩

theorem Row.recast_self (k : Kind) : Row.recast k k = id := by
  funext r
  simp [recast]

/-! ## Columns -/

/-- That a row is what a rule makes of another: as null as that one, and with the
bytes that are meant. -/
structure Row.CastBy (rule : CastRule) (source target : Kind) (r r' : Row) : Prop where
  null : r'.null = r.null
  cell : rule.Means source target r.cell r'.cell

/-- The conversion of cells is that of each. -/
theorem Elements.convert_flatten {f g : Primitive} {cells : List Bytes}
    (h : ∀ cell ∈ cells, cell.length = f.width) :
    convert f g cells.flatten = (cells.map fun cell => Number.write g (Number.read f cell)).flatten := by
  rw [convert, length_flatten_of_uniform h, Nat.mul_div_cancel _ f.width_pos, pieces_flatten h,
    List.flatMap_def]

namespace Column

variable {c c' : Column} {target : Kind} {rule : CastRule}

theorem cast_self (c : Column) : c.cast c.kind = .ok c := by
  simp only [cast, Kind.requireCast_of_castRule? c.kind.castRule?_self, Elements.cast]
  rfl

theorem cast_of_forms (hrule : c.kind.castRule? target = some rule) (hne : rule ≠ .identity)
    {f g : Primitive} (hf : c.kind.primitive? = some f) (hg : target.primitive? = some g) {bytes : Bytes}
    (hbytes : c.payload.elements = .fixed bytes) :
    c.cast target = .ok { c with
      kind := target, payload := { c.payload with elements := .fixed (Elements.convert f g bytes) } } := by
  have helements : Elements.cast rule c.kind target (.fixed bytes) =
      .ok (.fixed (Elements.convert f g bytes)) := by
    cases rule <;> simp_all [Elements.cast]
  simp only [cast, Kind.requireCast_of_castRule? hrule, hbytes, helements, bind, Except.bind, pure, Except.pure]

/-- Where there is a rule, there is a cast. -/
theorem cast_ok (hs : c.payload.elements.Suits c.kind) (hrule : c.kind.castRule? target = some rule) :
    ∃ c', c.cast target = .ok c' := by
  by_cases hne : rule = .identity
  · obtain rfl := castRule?_eq_identity (hne ▸ hrule)
    exact ⟨c, c.cast_self⟩
  · obtain ⟨f, g, hf, hg⟩ := Kind.forms_of_castRule? hrule hne
    obtain ⟨bytes, hbytes⟩ := Elements.eq_fixed_of_suits hf hs
    exact ⟨_, cast_of_forms hrule hne hf hg hbytes⟩

/-- **A cast column's rows** are those of its source, cell by cell in the other form. -/
theorem Holds.recast {rows : List Row} (h : c.Holds rows) (hrule : c.kind.castRule? target = some rule)
    (hc : c.cast target = .ok c') : c'.Holds (rows.map (Row.recast c.kind target)) := by
  by_cases hne : rule = .identity
  · subst hne
    obtain rfl := castRule?_eq_identity hrule
    obtain rfl : c = c' := Except.ok.inj (c.cast_self.symm.trans hc)
    simpa [Row.recast_self] using h
  · obtain ⟨f, g, hf, hg⟩ := Kind.forms_of_castRule? hrule hne
    have hkinds : c.kind ≠ target := fun heq => hne (Kind.rule_eq_identity hrule heq)
    have hcells : ∀ cell ∈ rows.map Row.cell, cell.length = f.width := fun cell hcell =>
      (Kind.isCell_iff hf cell).mp (h.isCell cell hcell)
    have hbytes := h.elements.trans (Elements.lay_of_fixed hf _)
    obtain rfl := Except.ok.inj ((cast_of_forms hrule hne hf hg hbytes).symm.trans hc)
    have hmap : (rows.map (Row.recast c.kind target)).map Row.cell =
        (rows.map Row.cell).map fun cell => Number.write g (Number.read f cell) := by
      simp only [List.map_map, Function.comp_def, Row.recast, Kind.recast_of_forms hkinds hf hg]
    exact {
      flags := by rw [List.map_map]; exact h.flags
      elements := by rw [hmap, Elements.lay_of_fixed hg, ← Elements.convert_flatten hcells]
      isRow := fun r hr => by
        obtain ⟨_, -, rfl⟩ := List.mem_map.mp hr
        refine ⟨?_, ?_⟩
        · rw [Row.recast, Kind.recast_of_forms hkinds hf hg]
          exact Kind.isCell_encode hg _
        · rintro rfl
          cases hg
      fits := Elements.fits_of_fixed hg _
      covered := h.covered }

/-- **The rows of a cast column** are those of its source, each by the rule. -/
theorem Holds.cast_rows {rows : List Row} (h : c.Holds rows) (hrule : c.kind.castRule? target = some rule)
    (hc : c.cast target = .ok c') :
    ∃ rows', c'.Holds rows' ∧
      ∀ i (hi : i < rows.length), ∃ r', rows'[i]? = some r' ∧ Row.CastBy rule c.kind target rows[i] r' := by
  refine ⟨_, h.recast hrule hc, fun i hi => ⟨rows[i].recast c.kind target, by simp [hi], rfl, ?_⟩⟩
  by_cases hne : rule = .identity
  · subst hne
    exact castRule?_eq_identity hrule ▸ Kind.recast_self _ _
  · obtain ⟨f, g, hf, hg⟩ := Kind.forms_of_castRule? hrule hne
    have hkinds : c.kind ≠ target := fun heq => hne (Kind.rule_eq_identity hrule heq)
    have hcell := (Kind.isCell_iff hf _).mp (h.isRow _ (List.getElem_mem hi)).1
    rw [Row.recast, Kind.recast_of_forms hkinds hf hg]
    exact Kind.means_of_castRule? hrule hne hf hg hcell

/-- Memory that has room for a column has room for a cast of it. -/
theorem InMemory.reserved_le (h : c.InMemory) {rows : List Row} (hrows : c.Holds rows) {f g : Primitive}
    (hf : c.kind.primitive? = some f) (hg : target.primitive? = some g) :
    Elements.reserved target c.rows ≤ maxSize := by
  obtain ⟨bytes, hbytes, hlength⟩ := hrows.formed.fixed f hf
  have hsource := h bytes (by simp [Payload.buffers, Elements.data, hbytes])
  have hfew : c.rows ≤ c.rows * f.width := Nat.le_mul_of_pos_right _ f.width_pos
  have hsize : c.rows * g.width ≤ c.rows * 8 := Nat.mul_le_mul_left _ g.width_le
  have haligned : aligned (c.rows * g.width) ≤ c.rows * g.width + 63 := by
    simp only [aligned, alignment]
    omega
  simp only [addressBits] at hsource
  simp only [Elements.reserved, Kind.width?, hg, Option.map_some, indexBits, maxSize]
  omega

end Column

/-! ## Sessions -/

namespace Action

open Session

variable {s s' : Session} {v : String} {c c' : Column} {target : Kind} {rule : CastRule}

/-- What there is no rule for is refused as it is. -/
theorem exec_cast_unsupported (hs : s.Coherent) (hc : s.shown? v = some c)
    (hnone : c.kind.castRule? target = none) :
    (cast v target).exec s = (.error (.fault (.refused (.unsupportedCast c.kind target))), s) := by
  have hrequire : c.shape.kind.requireCast target = refuse (.unsupportedCast c.kind target) := by
    simp only [Kind.requireCast, Column.shape, hnone]
  simp only [cast, exec_bind, exec_shape hs hc, exec_act, hrequire, refuse]

/-- A cast stops where the data is not brought. -/
theorem exec_cast_of_error (hs : s.Coherent) (hc : s.shown? v = some c)
    (hrule : c.kind.castRule? target = some rule) {stop : Stop}
    (hp : (materialize v).exec s = (.error stop, s')) : (cast v target).exec s = (.error stop, s') := by
  have hrequire : c.shape.kind.requireCast target = .ok rule := Kind.requireCast_of_castRule? hrule
  simp only [cast, exec_bind, exec_shape hs hc, exec_act, hrequire, hp]

/-- **Casting a vector** casts its column, once its data is brought, to a new vector
on the host, if memory has room for it. -/
theorem exec_cast (hs : s.Coherent) (hc : s.shown? v = some c)
    (hrule : c.kind.castRule? target = some rule) {p : Payload}
    (hp : (materialize v).exec s = (.ok p, s')) (hcast : c.cast target = .ok c') :
    (rule = .identity ∨ Elements.reserved target c.rows ≤ maxSize →
      ∃ id s'', (cast v target).exec s = (.ok id, s'') ∧
        s''.storages.find? id = some ⟨c'.shape, .host c'.payload, 1⟩) ∧
    (rule ≠ .identity → maxSize < Elements.reserved target c.rows →
      ((cast v target).exec s).1 = .error (.fault .outOfBounds)) := by
  have hrequire : c.shape.kind.requireCast target = .ok rule := Kind.requireCast_of_castRule? hrule
  obtain rfl := payload_of_materialize hs hc (by rw [hp])
  have hcolumn : c.shape.column c.payload = c := rfl
  have hrows : c.shape.rows = c.rows := rfl
  refine ⟨fun hroom => ?_, fun hne hfull => ?_⟩
  · by_cases hne : rule ≠ .identity
    · have hstorage : Elements.requireStorage target c.rows = .ok () := by
        rw [Elements.requireStorage, if_pos (hroom.resolve_left hne)]
      simp only [cast, exec_bind, exec_shape hs hc, exec_act, hrequire, hp, exec_modify, hrows, if_pos hne,
        hstorage, hcolumn, hcast]
      exact ⟨_, _, rfl, Table.find?_insert_self _ _ _⟩
    · simp only [cast, exec_bind, exec_shape hs hc, exec_act, hrequire, hp, exec_modify, if_neg hne,
        hcolumn, hcast]
      exact ⟨_, _, rfl, Table.find?_insert_self _ _ _⟩
  · have hstorage : Elements.requireStorage target c.rows = .error .outOfBounds := by
      rw [Elements.requireStorage, if_neg (Nat.not_le_of_lt hfull)]
    simp only [cast, exec_bind, exec_shape hs hc, exec_act, hrequire, hp, exec_modify, hrows, if_pos hne,
      hstorage]

end Action

/-! ## Every reachable session -/

open Columnar.Action

/-- **Casts mean what the cast matrix says.** In every session that commands lead to,
text is not cast to anything else nor anything else to text, which is refused before
any data is brought and changes nothing. For all other kinds there is a rule, and a
vector whose data is brought is cast to a new one on the host with as many rows and
nulls and the same validity bits, in which every row, null or not, is what the rule
makes of it. Only a size that cannot be set aside keeps a cast from an answer, and
there is none for a vector of fixed width in memory. -/
theorem cast_of_reachable {s : Session} (hs : s.Reachable .unlimited) {v : String} {c : Column}
    (hc : s.shown? v = some c) (t : Kind) :
    (¬ (c.kind = .string ↔ t = .string) →
      (cast v t).exec s = (.error (.fault (.refused (.unsupportedCast c.kind t))), s)) ∧
    ((c.kind = .string ↔ t = .string) →
      ∃ rule, c.kind.castRule? t = some rule ∧ (rule = .identity ↔ c.kind = t) ∧
        (∀ stop s', (materialize v).exec s = (.error stop, s') →
          (cast v t).exec s = (.error stop, s')) ∧
        ∀ p s', (materialize v).exec s = (.ok p, s') →
          (c.kind = t ∨ Elements.reserved t c.rows ≤ maxSize →
            ∃ (id : Nat) (s'' : Session) (c' : Column), (cast v t).exec s = (.ok id, s'') ∧
              s''.storages.find? id = some ⟨c'.shape, .host c'.payload, 1⟩ ∧ c'.kind = t ∧
              c'.rows = c.rows ∧ c'.nulls = c.nulls ∧ c'.payload.validity = c.payload.validity ∧
              (∃ rows, c.Holds rows) ∧ ∀ rows, c.Holds rows → ∃ rows', c'.Holds rows' ∧
                ∀ i (hi : i < rows.length), ∃ r', rows'[i]? = some r' ∧
                  Row.CastBy rule c.kind t rows[i] r') ∧
          (c.kind ≠ t → maxSize < Elements.reserved t c.rows →
            ((cast v t).exec s).1 = .error (.fault .outOfBounds))) ∧
    (c.kind ≠ .string → t ≠ .string → c.InMemory → Elements.reserved t c.rows ≤ maxSize) := by
  have hsound := hs.sound invariant_wellFormed
  have hcoherent := hsound.coherent
  have hwell := hsound.shown hc
  obtain ⟨rows, hrows⟩ := hwell.holds
  refine ⟨fun hkinds => exec_cast_unsupported hcoherent hc (Kind.castRule?_eq_none.mpr hkinds),
    fun hkinds => ?_, fun hsource htarget hmemory => ?_⟩
  · obtain ⟨rule, hrule⟩ : ∃ rule, c.kind.castRule? t = some rule :=
      Option.ne_none_iff_exists'.mp fun hnone => Kind.castRule?_eq_none.mp hnone hkinds
    have hidentity : rule = .identity ↔ c.kind = t := by
      refine ⟨fun h => Column.castRule?_eq_identity (h ▸ hrule), ?_⟩
      rintro rfl
      exact (Option.some.inj ((Kind.castRule?_self c.kind).symm.trans hrule)).symm
    obtain ⟨c', hcast⟩ := Column.cast_ok hwell.counted.suits hrule
    refine ⟨rule, hrule, hidentity, fun stop s' => exec_cast_of_error hcoherent hc hrule, fun p s' hp => ?_⟩
    obtain ⟨hroom, hfull⟩ := exec_cast hcoherent hc hrule hp hcast
    rw [hidentity] at hroom
    rw [ne_eq, hidentity] at hfull
    refine ⟨fun h => ?_, hfull⟩
    obtain ⟨id, s'', hexec, hst⟩ := hroom h
    have hshape : c'.kind = t ∧ c'.rows = c.rows ∧ c'.nulls = c.nulls ∧
        c'.payload.validity = c.payload.validity := by
      obtain ⟨e, rfl, -⟩ := Column.cast_eq_ok hcast
      exact ⟨rfl, rfl, rfl, rfl⟩
    obtain ⟨hkind, hsame_rows, hnulls, hvalidity⟩ := hshape
    exact ⟨id, s'', c', hexec, hst, hkind, hsame_rows, hnulls, hvalidity, ⟨rows, hrows⟩,
      fun rows hholds => hholds.cast_rows hrule hcast⟩
  · obtain ⟨f, hf⟩ := Option.ne_none_iff_exists'.mp (mt Kind.primitive?_eq_none.mp hsource)
    obtain ⟨g, hg⟩ := Option.ne_none_iff_exists'.mp (mt Kind.primitive?_eq_none.mp htarget)
    exact hmemory.reserved_le hrows hf hg

set_option maxRecDepth 4000 in
/-- Truth values, one of them written in an unusual way and one null, as integers. -/
theorem cast_of_bools :
    let s := (Session.run { config := none } [.make (.ofParts .bool 3 [0, 2, 1] (some [0xFB])) "v"]).2
    s.Reachable .unlimited ∧ ∃ c, s.shown? "v" = some c ∧
      (cast "v" .string).exec s = (.error (.fault (.refused (.unsupportedCast .bool .string))), s) ∧
      ∃ (id : Nat) (s'' : Session) (c' : Column), (cast "v" (.int .w16)).exec s = (.ok id, s'') ∧
        s''.storages.find? id = some ⟨c'.shape, .host c'.payload, 1⟩ ∧ c'.nulls = 1 ∧
        ∃ rows r, c'.Holds rows ∧ rows[1]? = some r ∧ r.null = false ∧ Primitive.signed .w16 r.cell = 1 := by
  intro s
  have hs : s.Reachable .unlimited := by
    refine (Session.Reachable.start none).run ?_
    simp [Command.Within]
  let c : Column := ⟨.bool, 3, 1, ⟨.fixed [0, 2, 1], some ⟨0xFB :: List.replicate 63 0xFF⟩⟩⟩
  have hc : s.shown? "v" = some c := rfl
  have hholds : c.Holds [⟨false, [0]⟩, ⟨false, [2]⟩, ⟨true, [1]⟩] := {
    flags := rfl
    elements := rfl
    isRow := by simp [Kind.IsRow, Kind.IsCell, c, Kind.primitive?, Primitive.width]
    fits := by simp [Elements.Fits, c]
    covered := by simp [Column.Covered, c, Bitmap.capacity] }
  obtain ⟨rule, hrule, -, -, hcasts⟩ := (cast_of_reachable hs hc (.int .w16)).2.1 (by decide)
  obtain rfl : rule = .boolToNumber := (Option.some.inj hrule).symm
  obtain ⟨id, s'', c', hexec, hst, -, -, hnulls, -, -, hrows⟩ := (hcasts c.payload s rfl).1 (.inr (by decide))
  obtain ⟨rows, hheld, heach⟩ := hrows _ hholds
  obtain ⟨r, hr, hnull, hcell⟩ := heach 1 (by decide)
  exact ⟨hs, c, hc, (cast_of_reachable hs hc .string).1 (by decide), id, s'', c', hexec, hst, hnulls, rows, r,
    hheld, hr, hnull, hcell⟩

end Columnar

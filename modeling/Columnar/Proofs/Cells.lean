/-
Element storage as a list of cells, the bytes of one row each.

`Elements.lay` puts cells into memory: side by side, and for strings with the
offsets of their ends. Rows are read back from there one cell at a time
(`element?_lay`, `textBytes?_lay`), and what one storage takes over from another
are its cells (`extend_lay`). `Elements.pieces` cuts bytes into the cells they
were laid out from.
-/
import Columnar.Column
import Columnar.Proofs.Bytes
import Columnar.Proofs.Editing
import Columnar.Proofs.Text

namespace Columnar

/-! ## Kinds -/

namespace Kind

/-- Bytes that can be one row of a kind. -/
def IsCell (k : Kind) (cell : Bytes) : Prop :=
  match k.primitive? with
  | some f => cell.length = f.width
  | none => ∃ s, Utf8.decode cell = .ok s

/-- The scalar that the bytes of a row write. -/
def readCell : Kind → Bytes → Scalar
  | int w, cell => .int w (Primitive.decode (.int w) cell)
  | float p, cell => .float p (Primitive.decode (.float p) cell)
  | bool, cell => .bool (Primitive.decode .bool cell)
  | date, cell => .date (Primitive.decode (.int .w32) cell)
  | string, cell => .string ((Utf8.decode cell).toOption.getD "")

theorem primitive?_eq_none {k : Kind} : k.primitive? = none ↔ k = string := by
  cases k <;> simp [primitive?]

theorem stride_eq {k : Kind} {f : Primitive} (h : k.primitive? = some f) : k.stride = f.width := by
  simp [stride, width?, h]

/-- A form is the one that a kind is stored in when it is the kind's own. -/
theorem storage_eq_kind {k : Kind} {f : Primitive} :
    k.storage = f.kind ↔ k.primitive? = some f := by
  cases k <;> cases f <;> simp [storage, primitive?, Primitive.kind]

theorem isCell_iff {k : Kind} {f : Primitive} (h : k.primitive? = some f) (cell : Bytes) :
    k.IsCell cell ↔ cell.length = f.width := by
  simp only [IsCell, h]

theorem isCell_text (s : String) : string.IsCell (Utf8.encode s) := ⟨s, Utf8.decode_encode s⟩

theorem isCell_encode {k : Kind} {f : Primitive} (h : k.primitive? = some f) (v : f.Carrier) :
    k.IsCell (f.encode v) :=
  (isCell_iff h _).mpr (f.length_encode v)

end Kind

namespace Elements

/-! ## Bytes side by side -/

theorem length_flatten_of_uniform {w : Nat} {cells : List Bytes} (h : ∀ cell ∈ cells, cell.length = w) :
    cells.flatten.length = cells.length * w := by
  induction cells with
  | nil => simp
  | cons cell cells ih =>
    rw [List.flatten_cons, List.length_append, h cell (by simp), ih fun c hc => h c (by simp [hc]),
      List.length_cons, Nat.succ_mul, Nat.add_comm]

theorem flatten_take_add_drop (cells : List Bytes) (i : Nat) :
    cells.flatten = (cells.take i).flatten ++ (cells.drop i).flatten := by
  rw [← List.flatten_append, List.take_append_drop]

theorem flatten_take_succ {cells : List Bytes} {i : Nat} (hi : i < cells.length) :
    (cells.take (i + 1)).flatten = (cells.take i).flatten ++ cells[i] := by
  rw [List.take_succ_eq_append_getElem hi, List.flatten_append, List.flatten_singleton]

theorem length_flatten_take_le (cells : List Bytes) (i : Nat) :
    (cells.take i).flatten.length ≤ cells.flatten.length := by
  have := congrArg List.length (flatten_take_add_drop cells i)
  simp only [List.length_append] at this
  omega

theorem length_pieces (w n : Nat) (bytes : Bytes) : (pieces w n bytes).length = n := by
  induction n generalizing bytes with
  | zero => rfl
  | succ n ih => simp [pieces, ih]

theorem pieces_flatten {w : Nat} {cells : List Bytes} (h : ∀ cell ∈ cells, cell.length = w) :
    pieces w cells.length cells.flatten = cells := by
  induction cells with
  | nil => rfl
  | cons cell cells ih =>
    have hw : cell.length = w := h cell (by simp)
    rw [List.length_cons, pieces, List.flatten_cons, List.take_left' hw, List.drop_left' hw,
      ih fun c hc => h c (by simp [hc])]

/-- Bytes are the pieces they are cut into. -/
theorem flatten_pieces {w n : Nat} {bytes : Bytes} (h : bytes.length = n * w) :
    (pieces w n bytes).flatten = bytes := by
  induction n generalizing bytes with
  | zero => simpa [pieces, eq_comm] using h
  | succ n ih =>
    rw [Nat.succ_mul] at h
    rw [pieces, List.flatten_cons, ih (by rw [List.length_drop]; omega), List.take_append_drop]

theorem length_of_mem_pieces {w n : Nat} {bytes cell : Bytes} (h : n * w ≤ bytes.length)
    (hc : cell ∈ pieces w n bytes) : cell.length = w := by
  induction n generalizing bytes with
  | zero => cases hc
  | succ n ih =>
    rw [Nat.succ_mul] at h
    rw [pieces, List.mem_cons] at hc
    rcases hc with rfl | hc
    · rw [List.length_take]; omega
    · exact ih (by rw [List.length_drop]; omega) hc

/-! ## Cells in memory -/

/-- Where cells end that follow each other from `start` on. -/
def ends (start : Nat) : List Bytes → List UInt32
  | [] => []
  | cell :: rest => UInt32.ofNat (start + cell.length) :: ends (start + cell.length) rest

/-- The cells of a kind in memory. -/
def lay (k : Kind) (cells : List Bytes) : Elements Bytes :=
  if k.isFixedWidth then .fixed cells.flatten else .strings (0 :: ends 0 cells) cells.flatten

/-- That offsets reach the end of the text, if the cells are text. -/
def Fits (k : Kind) (cells : List Bytes) : Prop :=
  k = .string → cells.flatten.length ≤ maxTextBytes

theorem lay_of_fixed {k : Kind} {f : Primitive} (h : k.primitive? = some f) (cells : List Bytes) :
    lay k cells = .fixed cells.flatten := by
  simp [lay, Kind.isFixedWidth, h]

theorem lay_string (cells : List Bytes) :
    lay .string cells = .strings (0 :: ends 0 cells) cells.flatten := rfl

/-- That elements are of the storage that a kind has. -/
def Suits {β : Type} (k : Kind) : Elements β → Prop
  | fixed _ => k ≠ .string
  | strings _ _ => k = .string

theorem suits_lay (k : Kind) (cells : List Bytes) : (lay k cells).Suits k := by
  cases k <;> simp [lay, Kind.isFixedWidth, Kind.primitive?, Suits]

theorem eq_fixed_of_suits {β : Type} {k : Kind} {f : Primitive} (h : k.primitive? = some f)
    {e : Elements β} (hs : e.Suits k) : ∃ bytes, e = .fixed bytes := by
  cases e with
  | fixed bytes => exact ⟨bytes, rfl⟩
  | strings offsets text =>
    rw [show k = .string from hs] at h
    cases h

theorem fits_of_fixed {k : Kind} {f : Primitive} (h : k.primitive? = some f) (cells : List Bytes) :
    Fits k cells := by
  rintro rfl
  cases h

@[simp] theorem length_ends (start : Nat) (cells : List Bytes) :
    (ends start cells).length = cells.length := by
  induction cells generalizing start with
  | nil => rfl
  | cons cell cells ih => simp [ends, ih]

theorem ends_append (start : Nat) (a b : List Bytes) :
    ends start (a ++ b) = ends start a ++ ends (start + a.flatten.length) b := by
  induction a generalizing start with
  | nil => simp [ends]
  | cons cell a ih => simp [ends, ih, Nat.add_assoc]

theorem getElem?_ends (start : Nat) {cells : List Bytes} {i : Nat} (hi : i < cells.length) :
    (ends start cells)[i]? = some (UInt32.ofNat (start + (cells.take (i + 1)).flatten.length)) := by
  induction cells generalizing start i with
  | nil => cases hi
  | cons cell cells ih =>
    cases i with
    | zero => simp [ends]
    | succ i => simp [ends, ih (start + cell.length) (Nat.lt_of_succ_lt_succ hi), Nat.add_assoc]

/-- Offset `i` is where the first `i` cells end. -/
theorem getElem?_offsets {cells : List Bytes} {i : Nat} (hi : i ≤ cells.length) :
    (0 :: ends 0 cells)[i]? = some (UInt32.ofNat (cells.take i).flatten.length) := by
  cases i with
  | zero => rfl
  | succ i => rw [List.getElem?_cons_succ, getElem?_ends 0 hi, Nat.zero_add]

theorem toNat_ofNat_of_le {n : Nat} (h : n ≤ maxTextBytes) : (UInt32.ofNat n).toNat = n := by
  have : maxTextBytes < UInt32.size := by decide
  exact UInt32.toNat_ofNat_of_lt' (by omega)

theorem rebase?_ofNat {base offset : Nat} (h : base + offset ≤ maxTextBytes) :
    rebase? (UInt32.ofNat base) (UInt32.ofNat offset) = some (UInt32.ofNat (base + offset)) := by
  have hreach : maxTextBytes < 2 ^ offsetBits := by decide
  simp only [rebase?, toNat_ofNat_of_le (show base ≤ maxTextBytes by omega),
    toNat_ofNat_of_le (show offset ≤ maxTextBytes by omega), UInt32.ofNat_add]
  exact if_pos (by omega)

/-- The ends count on from where the cells are put. -/
theorem mapM_rebase?_ends {base start : Nat} {cells : List Bytes}
    (h : base + start + cells.flatten.length ≤ maxTextBytes) :
    (ends start cells).mapM (rebase? (UInt32.ofNat base)) = some (ends (base + start) cells) := by
  induction cells generalizing start with
  | nil => rfl
  | cons cell cells ih =>
    rw [List.flatten_cons, List.length_append] at h
    rw [ends, List.mapM_cons, rebase?_ofNat (by omega), ih (by omega), ends, Nat.add_assoc]
    rfl

theorem pairwise_offsets {cells : List Bytes} (hfit : cells.flatten.length ≤ maxTextBytes) :
    (0 :: ends 0 cells).Pairwise (· ≤ ·) := by
  refine List.pairwise_iff_getElem.mpr fun i j hi hj hij => ?_
  have hlen (i : Nat) := Nat.le_trans (length_flatten_take_le cells i) hfit
  have hj' : j ≤ cells.length := by simpa [Nat.lt_succ_iff] using hj
  have hstart := getElem?_offsets (Nat.le_trans (Nat.le_of_lt hij) hj')
  have hstop := getElem?_offsets hj'
  rw [List.getElem?_eq_getElem hi, Option.some.injEq] at hstart
  rw [List.getElem?_eq_getElem hj, Option.some.injEq] at hstop
  rw [hstart, hstop, UInt32.le_iff_toNat_le, toNat_ofNat_of_le (hlen i), toNat_ofNat_of_le (hlen j)]
  have := length_flatten_take_le (cells.take j) i
  rwa [List.take_take, Nat.min_eq_left (Nat.le_of_lt hij)] at this

/-- **A string's bytes are its cell.** -/
theorem textBytes?_lay {cells : List Bytes} (hfit : cells.flatten.length ≤ maxTextBytes) {i : Nat}
    (hi : i < cells.length) :
    textBytes? (0 :: ends 0 cells) cells.flatten i = some cells[i] := by
  have hstart := length_flatten_take_le cells i
  have hstop := length_flatten_take_le cells (i + 1)
  have hcut := flatten_take_succ hi
  have hlen := congrArg List.length hcut
  rw [List.length_append] at hlen
  have htake : cells.flatten.take (cells.take (i + 1)).flatten.length = (cells.take (i + 1)).flatten := by
    rw [flatten_take_add_drop cells (i + 1), List.take_left' rfl]
  simp only [textBytes?, getElem?_offsets (Nat.le_of_lt hi), getElem?_offsets hi, Option.bind_eq_bind,
    Option.bind_some, toNat_ofNat_of_le (Nat.le_trans hstart hfit),
    toNat_ofNat_of_le (Nat.le_trans hstop hfit)]
  rw [if_pos ⟨by omega, hstop⟩, htake, hcut, List.drop_left' rfl]

/-- **An element's bytes are its cell.** -/
theorem element?_lay {f : Primitive} {cells : List Bytes} (hc : ∀ cell ∈ cells, cell.length = f.width)
    {i : Nat} (hi : i < cells.length) :
    element? f cells.flatten i = some (f.decode cells[i]) := by
  have hcell : cells[i].length = f.width := hc _ (List.getElem_mem hi)
  have hbefore : (cells.take i).flatten.length = i * f.width := by
    rw [length_flatten_of_uniform fun c h => hc c (List.mem_of_mem_take h),
      List.length_take_of_le (Nat.le_of_lt hi)]
  have hdrop : cells.flatten.drop (i * f.width) = cells[i] ++ (cells.drop (i + 1)).flatten := by
    rw [flatten_take_add_drop cells i, List.drop_left' hbefore, List.drop_eq_getElem_cons hi,
      List.flatten_cons]
  rw [element?, hdrop, Primitive.read?, List.length_append, hcell,
    if_pos (Nat.le_add_right _ _), List.take_left' hcell]

/-! ## Cells in growable storage -/

/-- Storage that holds cells of fixed width. -/
theorem finish_eq_lay_of_fixed {k : Kind} {f : Primitive} (hk : k.primitive? = some f)
    {e : Elements Buffer} {cells : List Bytes} :
    e.finish = lay k cells ↔ ∃ buffer, e = .fixed buffer ∧ buffer.toList = cells.flatten := by
  cases e <;> simp [finish, map, lay_of_fixed hk]

/-- Storage that holds strings. -/
theorem finish_eq_lay_string {e : Elements Buffer} {cells : List Bytes} :
    e.finish = lay .string cells ↔
      ∃ text, e = .strings (0 :: ends 0 cells) text ∧ text.toList = cells.flatten := by
  cases e with
  | fixed buffer => simp [finish, map, lay_string]
  | strings offsets text =>
    simp only [finish, map, lay_string, Elements.strings.injEq]
    constructor
    · rintro ⟨rfl, htext⟩
      exact ⟨text, ⟨rfl, rfl⟩, htext⟩
    · rintro ⟨_, ⟨rfl, rfl⟩, htext⟩
      exact ⟨rfl, htext⟩

@[simp] theorem requireStorage_eq_ok {k : Kind} {n : Nat} {u : Unit} :
    requireStorage k n = .ok u ↔ reserved k n ≤ maxSize := by
  unfold requireStorage
  split <;> simp [*]

/-- What is set aside for rows is enough for fewer. -/
theorem reserved_mono {m n : Nat} (k : Kind) (h : m ≤ n) : reserved k m ≤ reserved k n := by
  cases hw : k.width? with
  | some width => simpa only [reserved, hw] using aligned_mono (Nat.mul_le_mul_right width h)
  | none =>
    simp only [reserved, hw]
    omega

/-- Every row takes a byte at least. -/
theorem le_reserved (k : Kind) (n : Nat) : n ≤ reserved k n := by
  cases hk : k.primitive? with
  | some f =>
    simp only [reserved, Kind.width?, hk, Option.map_some]
    exact Nat.le_trans (Nat.le_mul_of_pos_right n f.width_pos) (le_aligned _)
  | none =>
    simp only [reserved, Kind.width?, hk, Option.map_none]
    omega

theorem suits_empty (k : Kind) : (empty k).Suits k := by
  cases k <;> simp [empty, Kind.isFixedWidth, Kind.primitive?, Suits]

theorem suits_finish {k : Kind} {e : Elements Buffer} (h : e.Suits k) : e.finish.Suits k := by
  cases e <;> exact h

theorem finish_empty (k : Kind) : (empty k).finish = lay k [] := by
  cases k <;> rfl

theorem ends_snoc (cells : List Bytes) (cell : Bytes) :
    ends 0 (cells ++ [cell]) =
      ends 0 cells ++ [UInt32.ofNat (cells.flatten.length + cell.length)] := by
  rw [ends_append, Nat.zero_add, ends, ends]

/-! ## Taking over -/

theorem first?_length (bytes : Bytes) : first? bytes bytes.length = some bytes := by
  simp [first?]

theorem exec_takeOver_fixed (buffer : Buffer) (bytes : Bytes) (rows width : Nat) :
    (takeOver (fixed bytes) rows width).exec (fixed buffer) =
      match first? bytes (rows * width) with
      | none => (.error .outOfBounds, fixed buffer)
      | some taken => (.ok (), fixed (buffer.append taken)) := by
  simp only [takeOver, Edit.exec_bind, Edit.exec_get, Edit.exec_lift, Edit.exec_set]
  cases first? bytes (rows * width) <;> rfl

/-- Strings take over text where offsets reach its end, and then the offsets. -/
theorem exec_takeOver_strings (offsets : List UInt32) (text : Buffer) (srcOffsets : List UInt32)
    (srcText : Bytes) (rows width : Nat) :
    (takeOver (strings srcOffsets srcText) rows width).exec (strings offsets text) =
      match srcOffsets[rows]? with
      | none => (.error .outOfBounds, strings offsets text)
      | some stop =>
        if textFits text.length stop.toNat then
          match first? srcText stop.toNat with
          | none => (.error .outOfBounds, strings offsets text)
          | some taken =>
            match ((srcOffsets.drop 1).take rows).mapM (rebase? (UInt32.ofNat text.length)) with
            | none => (.error .outOfBounds, strings offsets (text.append taken))
            | some moved => (.ok (), strings (offsets ++ moved) (text.append taken))
        else (.error (.refused .textTooLong), strings offsets text) := by
  simp only [takeOver, Edit.exec_bind, Edit.exec_get, Edit.exec_lift]
  cases srcOffsets[rows]? with
  | none => rfl
  | some stop =>
    by_cases hfits : textFits text.length stop.toNat
    · simp only [Outcome.ofOption, hfits, Bool.not_true, Bool.false_eq_true, if_false, if_true,
        Edit.exec_bind, Edit.exec_lift, Edit.exec_set]
      cases first? srcText stop.toNat with
      | none => rfl
      | some taken =>
        simp only
        cases ((srcOffsets.drop 1).take rows).mapM (rebase? (UInt32.ofNat text.length)) <;> rfl
    · simp only [Outcome.ofOption, hfits, Bool.not_false, Bool.false_eq_true, if_false, if_true]
      rfl

/-- **Elements that are refused** leave the others as they were: text that would be too long is
noticed before anything is written. -/
theorem careful_takeOver (src : Elements Bytes) (rows width : Nat) : (takeOver src rows width).Careful := by
  intro dst e error h
  cases dst <;> cases src
  case fixed.fixed buffer bytes =>
    rw [exec_takeOver_fixed] at h
    split at h <;> cases h
  case strings.strings offsets text srcOffsets srcText =>
    rw [exec_takeOver_strings] at h
    repeat' split at h
    all_goals cases h
    rfl
  all_goals cases h

theorem extend_fixed_eq_ok {buffer : Buffer} {bytes : Bytes} {rows width : Nat} {e : Elements Buffer} :
    (fixed buffer).extend (fixed bytes) rows width = .ok e ↔
      ∃ taken, first? bytes (rows * width) = some taken ∧ e = .fixed (buffer.append taken) := by
  rw [extend, Edit.outcome_eq_ok, exec_takeOver_fixed]
  cases first? bytes (rows * width) <;> simp [eq_comm]

theorem extend_strings_eq_ok {offsets srcOffsets : List UInt32} {text : Buffer} {srcText : Bytes}
    {rows width : Nat} {e : Elements Buffer} :
    (strings offsets text).extend (strings srcOffsets srcText) rows width = .ok e ↔
      ∃ stop taken moved, srcOffsets[rows]? = some stop ∧ textFits text.length stop.toNat ∧
        first? srcText stop.toNat = some taken ∧
        ((srcOffsets.drop 1).take rows).mapM (rebase? (UInt32.ofNat text.length)) = some moved ∧
        e = .strings (offsets ++ moved) (text.append taken) := by
  rw [extend, Edit.outcome_eq_ok, exec_takeOver_strings]
  constructor
  · intro h
    split at h
    next => cases h
    next stop hstop =>
      split at h
      next hfits =>
        split at h
        next => cases h
        next taken htaken =>
          split at h
          next => cases h
          next moved hmoved =>
            cases h
            exact ⟨stop, taken, moved, hstop, hfits, htaken, hmoved, rfl⟩
      next => cases h
  · rintro ⟨stop, taken, moved, hstop, hfits, htaken, hmoved, rfl⟩
    simp only [hstop, hfits, if_true, htaken, hmoved]

theorem suits_extend {k : Kind} {dst e : Elements Buffer} {src : Elements Bytes} {rows width : Nat}
    (hdst : dst.Suits k) (h : dst.extend src rows width = .ok e) : e.Suits k := by
  cases dst <;> cases src
  case fixed.fixed buffer bytes =>
    obtain ⟨taken, -, rfl⟩ := extend_fixed_eq_ok.mp h
    exact hdst
  case strings.strings offsets text srcOffsets srcText =>
    obtain ⟨stop, taken, moved, -, -, -, -, rfl⟩ := extend_strings_eq_ok.mp h
    exact hdst
  all_goals cases h

/-- **What a storage takes over** from another are its cells, behind its own. -/
theorem extend_lay {k : Kind} {dst : Elements Buffer} {a b : List Bytes} (ha : dst.finish = lay k a)
    (hb : ∀ cell ∈ b, k.IsCell cell) (hfit : Fits k (a ++ b)) :
    ∃ e, dst.extend (lay k b) b.length k.stride = .ok e ∧ e.finish = lay k (a ++ b) := by
  cases hk : k.primitive? with
  | some f =>
    obtain ⟨buffer, rfl, hbuffer⟩ := (finish_eq_lay_of_fixed hk).mp ha
    have hlen : b.length * k.stride = b.flatten.length := by
      rw [Kind.stride_eq hk, length_flatten_of_uniform fun cell hc => (Kind.isCell_iff hk cell).mp (hb cell hc)]
    rw [lay_of_fixed hk]
    exact ⟨_, extend_fixed_eq_ok.mpr ⟨_, hlen ▸ first?_length _, rfl⟩,
      (finish_eq_lay_of_fixed hk).mpr ⟨_, rfl, by simp [hbuffer]⟩⟩
  | none =>
    obtain rfl := Kind.primitive?_eq_none.mp hk
    obtain ⟨text, rfl, htext⟩ := finish_eq_lay_string.mp ha
    have hlen : text.length = a.flatten.length := by rw [← htext, Buffer.length_toList]
    have hsum : a.flatten.length + b.flatten.length ≤ maxTextBytes := by
      simpa [Fits, List.length_append] using hfit rfl
    have hmark := getElem?_offsets (Nat.le_refl b.length)
    rw [List.take_length] at hmark
    have htake : (ends 0 b).take b.length = ends 0 b := List.take_of_length_le (by simp)
    refine ⟨.strings (0 :: ends 0 (a ++ b)) (text.append b.flatten), ?_,
      finish_eq_lay_string.mpr ⟨_, rfl, by simp [htext]⟩⟩
    refine extend_strings_eq_ok.mpr ⟨_, b.flatten, ends a.flatten.length b, hmark, ?_, ?_, ?_, ?_⟩
    · rw [textFits, decide_eq_true_eq, hlen,
        toNat_ofNat_of_le (show b.flatten.length ≤ maxTextBytes by omega)]
      exact hsum
    · rw [toNat_ofNat_of_le (show b.flatten.length ≤ maxTextBytes by omega), first?_length]
    · rw [List.drop_one, List.tail_cons, htake, hlen, mapM_rebase?_ends (by omega), Nat.add_zero]
    · rw [ends_append, Nat.zero_add]
      rfl

/-- Where offsets would not reach the end of the text, nothing is taken over. -/
theorem extend_lay_of_not_fits {k : Kind} {dst : Elements Buffer} {a b : List Bytes}
    (ha : dst.finish = lay k a) (hb : Fits k b) (hfit : ¬ Fits k (a ++ b)) (width : Nat) :
    dst.extend (lay k b) b.length width = refuse .textTooLong := by
  cases hk : k.primitive? with
  | some f => exact absurd (fits_of_fixed hk _) hfit
  | none =>
    obtain rfl := Kind.primitive?_eq_none.mp hk
    obtain ⟨text, rfl, htext⟩ := finish_eq_lay_string.mp ha
    have hlen : text.length = a.flatten.length := by rw [← htext, Buffer.length_toList]
    have hsum : ¬ a.flatten.length + b.flatten.length ≤ maxTextBytes := by
      simpa [Fits, List.length_append] using hfit
    have hmark := getElem?_offsets (Nat.le_refl b.length)
    rw [List.take_length] at hmark
    rw [lay_string, extend, refuse, Edit.outcome_eq_error, exec_takeOver_strings, hmark]
    simp only [textFits, hlen, toNat_ofNat_of_le (hb rfl), hsum, decide_false, Bool.false_eq_true,
      if_false]

/-- What taking over gives, where it gives anything. -/
theorem of_extend_lay {k : Kind} {dst e : Elements Buffer} {a b : List Bytes}
    (ha : dst.finish = lay k a) (hcells : ∀ cell ∈ b, k.IsCell cell) (hb : Fits k b)
    (h : dst.extend (lay k b) b.length k.stride = .ok e) :
    Fits k (a ++ b) ∧ e.finish = lay k (a ++ b) := by
  by_cases hfit : Fits k (a ++ b)
  · obtain ⟨e', he', hlay⟩ := extend_lay ha hcells hfit
    rw [h] at he'
    cases he'
    exact ⟨hfit, hlay⟩
  · rw [extend_lay_of_not_fits ha hb hfit] at h
    cases h

end Elements

/-! ## Reading rows -/

namespace Payload

variable {p : Payload} {k : Kind} {cells : List Bytes} {i : Nat}

theorem element_lay {f : Primitive} (hk : k.primitive? = some f) (he : p.elements = Elements.lay k cells)
    (hc : ∀ cell ∈ cells, k.IsCell cell) (hi : i < cells.length) :
    p.element f i = .ok (f.decode cells[i]) := by
  have hw : ∀ cell ∈ cells, cell.length = f.width := fun c h => (Kind.isCell_iff hk c).mp (hc c h)
  simp only [element, he, Elements.lay_of_fixed hk, Elements.element?_lay hw hi, Outcome.ofOption]

theorem text_lay (he : p.elements = Elements.lay .string cells) (hfit : Elements.Fits .string cells)
    (hi : i < cells.length) {s : String} (hs : Utf8.decode cells[i] = .ok s) :
    p.text .string i = .ok s := by
  simp only [text, he, Elements.lay_string, Elements.textBytes?_lay (hfit rfl) hi, Outcome.ofOption,
    bind, Except.bind, hs]
  rfl

/-- **A row reads back as its cell.** -/
theorem scalar_lay (he : p.elements = Elements.lay k cells) (hc : ∀ cell ∈ cells, k.IsCell cell)
    (hfit : Elements.Fits k cells) (hi : i < cells.length) :
    p.scalar k i = .ok (k.readCell cells[i]) := by
  cases hk : k.primitive? with
  | some f =>
    have helement := element_lay hk he hc hi
    cases k with
    | string => cases hk
    | _ =>
      cases hk
      rw [scalar, helement]
      rfl
  | none =>
    obtain rfl := Kind.primitive?_eq_none.mp hk
    obtain ⟨s, hs⟩ := hc cells[i] (List.getElem_mem hi)
    rw [scalar, text_lay he hfit hi hs, Kind.readCell, hs]
    rfl

end Payload

end Columnar

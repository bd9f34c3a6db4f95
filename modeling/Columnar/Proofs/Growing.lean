/-
A growable buffer is a list of bytes with zeros after it.

What is done to a buffer is done to a plain list as well (`Plain.change`): bytes are put after it
or over it. The list is kept with the capacity that a buffer of it has, which only grows and
which no size that comes up on the way exceeds. One change keeps the buffer and the list together
(`Mirrors.change?`), and so do any number (`Mirrors.run?`), as long as the sizes are indices.
Nothing else stops a buffer than a write outside of it or an allocation that is too large
(`Origin.run?_plain`).
-/
import Columnar.Proofs.Bytes

namespace Columnar.Buffer

/-! ## Growth -/

/-- The capacity that a buffer of this length and capacity has once there is room for `n` more
bytes. -/
def grown (length capacity n : Nat) : Nat :=
  if length + n ≤ capacity then capacity else aligned (max (length + n) (2 * capacity))

section Growth

variable {length capacity n : Nat}

theorem grown_of_le (h : length + n ≤ capacity) : grown length capacity n = capacity := if_pos h

theorem add_le_grown (length capacity n : Nat) : length + n ≤ grown length capacity n := by
  have := le_aligned (max (length + n) (2 * capacity))
  unfold grown
  split <;> omega

theorem capacity_le_grown (length capacity n : Nat) : capacity ≤ grown length capacity n := by
  have := le_aligned (max (length + n) (2 * capacity))
  unfold grown
  split <;> omega

theorem alignment_dvd_grown (h : alignment ∣ capacity) : alignment ∣ grown length capacity n := by
  unfold grown
  split
  · exact h
  · exact alignment_dvd_aligned _

/-- Less than the growth is needed for the bytes alone. -/
theorem aligned_le_grown (h : alignment ∣ capacity) : aligned (length + n) ≤ grown length capacity n := by
  simp only [grown, aligned, alignment] at h ⊢
  split <;> omega

end Growth

variable {b b' : Buffer} {n : Nat}

theorem storage_reserve (b : Buffer) (n : Nat) :
    (b.reserve n).storage =
      b.storage ++ List.replicate (grown b.length b.capacity n - b.capacity) 0 := by
  by_cases h : b.length + n ≤ b.capacity <;> simp [reserve, grown, h]

theorem capacity_reserve (b : Buffer) (n : Nat) :
    (b.reserve n).capacity = grown b.length b.capacity n := by
  have hle := capacity_le_grown b.length b.capacity n
  rw [capacity, storage_reserve, List.length_append, List.length_replicate]
  simp only [capacity] at hle ⊢
  omega

theorem capacity_append (b : Buffer) (bytes : Bytes) :
    (b.append bytes).capacity = grown b.length b.capacity bytes.length := by
  have hroom := b.length_add_le_reserve bytes.length
  rw [← capacity_reserve]
  simp only [capacity, append, overlay, List.length_append, List.length_take, List.length_drop] at hroom ⊢
  omega

/-- Room that is an index is made, unless that takes more than can be allocated. -/
theorem reserve?_eq (hfits : grown b.length b.capacity n < 2 ^ indexBits) :
    b.reserve? n =
      if b.length + n ≤ b.capacity ∨ grown b.length b.capacity n ≤ maxSize then some (b.reserve n)
      else none := by
  have hneeded : index? (b.length + n) = some (b.length + n) :=
    index?_of_lt (Nat.lt_of_le_of_lt (add_le_grown _ _ _) hfits)
  by_cases hroom : b.length + n ≤ b.capacity
  · have hsame : b.reserve n = b := by
      cases b
      simp_all [reserve]
    simp [reserve?, hneeded, hroom, hsame]
  · have hgrown : grown b.length b.capacity n = aligned (max (b.length + n) (2 * b.capacity)) := if_neg hroom
    simp [reserve?, hneeded, hroom, hgrown]

theorem reserve?_eq_some (hfits : grown b.length b.capacity n < 2 ^ indexBits)
    (h : b.reserve? n = some b') : b.length + n ≤ b'.capacity ∧ b'.toList = b.toList := by
  rw [reserve?_eq hfits, Option.ite_none_right_eq_some] at h
  obtain ⟨-, h⟩ := h
  obtain rfl := Option.some.inj h
  exact ⟨b.length_add_le_reserve n, toList_reserve b n⟩

/-! ## Zeros after the content -/

/-- A buffer whose capacity is aligned and whose storage is zero past the content. -/
structure ZeroPadded (b : Buffer) : Prop where
  aligned : alignment ∣ b.capacity
  rest : b.storage.drop b.length = List.replicate (b.capacity - b.length) 0

/-- Storage that is put together from the content and zeros. -/
theorem zeroPadded_of_storage (b : Buffer) (content : Bytes) (zeros : Nat) (haligned : alignment ∣ b.capacity)
    (hlength : b.length = content.length) (hstorage : b.storage = content ++ List.replicate zeros 0) :
    b.ZeroPadded ∧ b.toList = content := by
  refine ⟨⟨haligned, ?_⟩, ?_⟩
  · have hzeros : b.capacity - b.length = zeros := by
      rw [capacity, hstorage, hlength, List.length_append, List.length_replicate]
      omega
    rw [hzeros, hstorage, hlength, List.drop_left]
  · rw [toList, hstorage, hlength, List.take_left]

namespace ZeroPadded

theorem storage_eq (h : b.ZeroPadded) :
    b.storage = b.toList ++ List.replicate (b.capacity - b.length) 0 := by
  rw [toList, ← h.rest, List.take_append_drop]

theorem getElem? (h : b.ZeroPadded) {i : Nat} (hle : b.length ≤ i) (hlt : i < b.capacity) :
    b.storage[i]? = some 0 := by
  have hrest : b.storage[i]? = (b.storage.drop b.length)[i - b.length]? := by
    rw [List.getElem?_drop, Nat.add_sub_cancel' hle]
  rw [hrest, h.rest, List.getElem?_replicate_of_lt (by omega)]

/-- **More room** is more zeros. -/
theorem reserve (h : b.ZeroPadded) (n : Nat) : (b.reserve n).ZeroPadded where
  aligned := by
    rw [capacity_reserve]
    exact alignment_dvd_grown h.aligned
  rest := by
    have hlen : b.length ≤ b.capacity := b.length_le
    have hle := capacity_le_grown b.length b.capacity n
    rw [capacity_reserve, storage_reserve, show (b.reserve n).length = b.length from rfl,
      List.drop_append_of_le_length b.length_le, h.rest, List.replicate_append_replicate]
    congr 1
    omega

/-- **Appended bytes** are put over zeros, and the zeros after them stay. -/
theorem append (h : b.ZeroPadded) (bytes : Bytes) : (b.append bytes).ZeroPadded where
  aligned := by
    rw [capacity_append]
    exact alignment_dvd_grown h.aligned
  rest := by
    have hroom := b.length_add_le_reserve bytes.length
    have hfront : ((b.reserve bytes.length).storage.take b.length ++ bytes).length =
        b.length + bytes.length := by
      rw [List.length_append, List.length_take]
      omega
    have hrest := (h.reserve bytes.length).rest
    rw [show (b.reserve bytes.length).length = b.length from rfl, capacity_reserve] at hrest
    have hstorage : (b.append bytes).storage = (b.reserve bytes.length).storage.take b.length ++ bytes ++
        (b.reserve bytes.length).storage.drop (b.length + bytes.length) := rfl
    rw [capacity_append, length_append, hstorage, ← hfront, List.drop_left, hfront, ← List.drop_drop, hrest,
      List.drop_replicate]
    congr 1
    omega

end ZeroPadded

/-! ## Writes -/

/-- A list with bytes written over it from `start` on. -/
def overwritten (content : Bytes) (start : Nat) (bytes : Bytes) : Bytes :=
  content.mapIdx fun i old => if start ≤ i then bytes.getD (i - start) old else old

@[simp] theorem length_overwritten (content : Bytes) (start : Nat) (bytes : Bytes) :
    (overwritten content start bytes).length = content.length := List.length_mapIdx

theorem overwritten_append (content region : Bytes) (start : Nat) (bytes : Bytes) :
    overwritten (content ++ region) (content.length + start) bytes =
      content ++ overwritten region start bytes := by
  have hbefore : content.mapIdx
      (fun i old => if content.length + start ≤ i then bytes.getD (i - (content.length + start)) old else old) =
      content := by
    refine List.ext_getElem (by simp) fun i hi hi' => ?_
    rw [List.getElem_mapIdx, if_neg (by omega)]
  rw [overwritten, List.mapIdx_append, hbefore, overwritten]
  congr 2
  funext i old
  by_cases hi : start ≤ i
  · rw [if_pos hi, if_pos (by omega), show i + content.length - (content.length + start) = i - start by omega]
  · rw [if_neg hi, if_neg (by omega)]

/-- **Putting bytes over others** is writing them one by one. -/
theorem overlay_eq (storage : Bytes) (start : Nat) (bytes : Bytes)
    (h : start + bytes.length ≤ storage.length) :
    overlay storage start bytes = overwritten storage start bytes := by
  refine List.ext_getElem? fun i => ?_
  have hstart : (storage.take start).length = start := by simp; omega
  simp only [overlay, overwritten, List.getElem?_mapIdx, List.getElem?_append, List.length_append, hstart,
    List.getD_eq_getElem?_getD]
  by_cases hbefore : i < start
  · rw [if_pos (by omega), if_pos hbefore, List.getElem?_take_of_lt hbefore]
    cases storage[i]? with
    | none => rfl
    | some old => rw [Option.map_some, if_neg (by omega)]
  · by_cases hin : i < start + bytes.length
    · rw [if_pos hin, if_neg hbefore, List.getElem?_eq_getElem (show i - start < bytes.length by omega),
        List.getElem?_eq_getElem (show i < storage.length by omega), Option.map_some, if_pos (by omega)]
      rfl
    · rw [if_neg hin, List.getElem?_drop, show start + bytes.length + (i - (start + bytes.length)) = i by omega,
        List.getElem?_eq_none (show bytes.length ≤ i - start by omega)]
      simp

theorem overwritten_of_le {content : Bytes} {start : Nat} {bytes : Bytes} (rest : Bytes)
    (h : start + bytes.length ≤ content.length) :
    overwritten (content ++ rest) start bytes = overwritten content start bytes ++ rest := by
  have hafter : rest.mapIdx (fun i old =>
      if start ≤ i + content.length then bytes.getD (i + content.length - start) old else old) = rest := by
    refine List.ext_getElem (by simp) fun i hi hi' => ?_
    rw [List.getElem_mapIdx, if_pos (by omega), List.getD_eq_getElem?_getD, List.getElem?_eq_none (by omega)]
    rfl
  rw [overwritten, List.mapIdx_append, hafter, overwritten]

/-- **A write** is answered where there is content, and only the bytes that it is made over
change. -/
theorem write?_ok (h : b.ZeroPadded) {start : Nat} {bytes : Bytes} (hin : start + bytes.length ≤ b.length) :
    ∃ b', b.write? start bytes = some b' ∧ b'.ZeroPadded ∧ b'.capacity = b.capacity ∧
      b'.toList = overwritten b.toList start bytes := by
  obtain ⟨b', hb', hlength, hstorage⟩ : ∃ b', b.write? start bytes = some b' ∧ b'.length = b.length ∧
      b'.storage = overlay b.storage start bytes := ⟨_, if_pos hin, rfl, rfl⟩
  rw [overlay_eq _ _ _ (Nat.le_trans hin b.length_le)] at hstorage
  have hcapacity : b'.capacity = b.capacity := by
    rw [capacity, hstorage, length_overwritten]
    rfl
  rw [h.storage_eq, overwritten_of_le _ (by rwa [length_toList])] at hstorage
  obtain ⟨hpadded, hlist⟩ := zeroPadded_of_storage b' _ _ (hcapacity ▸ h.aligned)
    (by rw [hlength, length_overwritten, length_toList]) hstorage
  exact ⟨b', hb', hpadded, hcapacity, hlist⟩

theorem write?_eq_none {start : Nat} {bytes : Bytes} (hout : b.length < start + bytes.length) :
    b.write? start bytes = none := if_neg (Nat.not_le.mpr hout)

/-! ## Changes -/

/-- What can be done to a buffer. -/
inductive Change where
  | reserve (n : Nat)
  | append (bytes : Bytes)
  | appendRepeated (pattern : Bytes) (count : Nat)
  /-- Appends zeros, and then writes over these, each time from a place among them on. -/
  | appendZeros (n : Nat) (writes : List (Nat × Bytes))
  | write (start : Nat) (bytes : Bytes)
  deriving Repr

/-- How a buffer comes to be. -/
inductive Origin where
  | empty
  | withCapacity (n : Nat)
  | ofList (bytes : Bytes)
  deriving Repr

/-- Writes over the bytes from `first` on, one after another. -/
def writeAll? (b : Buffer) (first : Nat) (writes : List (Nat × Bytes)) : Option Buffer :=
  writes.foldlM (fun b w => b.write? (first + w.1) w.2) b

/-- One change made. -/
def change? (b : Buffer) : Change → Option Buffer
  | .reserve n => b.reserve? n
  | .append bytes => some (b.append bytes)
  | .appendRepeated pattern count => b.appendRepeated? pattern count
  | .appendZeros n writes => do (← b.appendZeros? n).writeAll? b.length writes
  | .write start bytes => b.write? start bytes

/-- Changes made one after another. -/
def run? (b : Buffer) (changes : List Change) : Option Buffer := changes.foldlM change? b

def Origin.make? : Origin → Option Buffer
  | empty => some .empty
  | withCapacity n => withCapacity? n
  | ofList bytes => some (.ofList bytes)

/-- A buffer made and changed. -/
def Origin.run? (o : Origin) (changes : List Change) : Option Buffer := do (← o.make?).run? changes

theorem Origin.run?_append (o : Origin) (before after : List Change) :
    o.run? (before ++ after) = (o.run? before).bind (·.run? after) := by
  cases h : o.make? with
  | none => simp [Origin.run?, h]
  | some b => simp [Origin.run?, h, Buffer.run?, List.foldlM_append]

/-! ## The list -/

/-- A plain list of bytes, with the capacity that a buffer of it has. -/
structure Plain where
  content : Bytes
  capacity : Nat
  deriving Repr

namespace Change

/-- The bytes that room is made for. -/
def room : Change → Nat
  | reserve n => n
  | append bytes => bytes.length
  | appendRepeated pattern count => pattern.length * count
  | appendZeros n _ => n
  | write _ _ => 0

/-- What a change makes of a list. -/
def apply (content : Bytes) : Change → Bytes
  | reserve _ => content
  | append bytes => content ++ bytes
  | appendRepeated pattern count => content ++ (List.replicate count pattern).flatten
  | appendZeros n writes =>
    content ++ writes.foldl (fun region w => overwritten region w.1 w.2) (List.replicate n 0)
  | write start bytes => overwritten content start bytes

/-- That nothing is written outside of a list of this length, or of the zeros that are appended. -/
def Inside (length : Nat) : Change → Prop
  | appendZeros n writes => ∀ w ∈ writes, w.1 + w.2.length ≤ n
  | write start bytes => start + bytes.length ≤ length
  | _ => True

instance (length : Nat) : (c : Change) → Decidable (c.Inside length)
  | appendZeros n writes => inferInstanceAs (Decidable (∀ w ∈ writes, w.1 + w.2.length ≤ n))
  | write start bytes => inferInstanceAs (Decidable (start + bytes.length ≤ length))
  | reserve _ | append _ | appendRepeated _ _ => isTrue trivial

end Change

namespace Plain

def change (l : Plain) (c : Change) : Plain :=
  ⟨c.apply l.content, grown l.content.length l.capacity c.room⟩

def run (l : Plain) (changes : List Change) : Plain := changes.foldl change l

/-- That nothing is written outside of the list as it is then. -/
def Inside (l : Plain) : List Change → Prop
  | [] => True
  | c :: changes => c.Inside l.content.length ∧ (l.change c).Inside changes

instance decidableInside (l : Plain) : (changes : List Change) → Decidable (l.Inside changes)
  | [] => isTrue trivial
  | c :: changes =>
    have := decidableInside (l.change c) changes
    inferInstanceAs (Decidable (c.Inside l.content.length ∧ (l.change c).Inside changes))

theorem capacity_le_run (l : Plain) (changes : List Change) : l.capacity ≤ (l.run changes).capacity := by
  induction changes generalizing l with
  | nil => exact Nat.le_refl _
  | cons c changes ih => exact Nat.le_trans (capacity_le_grown _ _ _) (ih (l.change c))

theorem run_append (l : Plain) (before after : List Change) :
    l.run (before ++ after) = (l.run before).run after := List.foldl_append

theorem content_run (l : Plain) (changes : List Change) :
    (l.run changes).content = changes.foldl Change.apply l.content := by
  induction changes generalizing l with
  | nil => rfl
  | cons c changes ih => exact ih (l.change c)

end Plain

def Origin.plain : Origin → Plain
  | empty => ⟨[], 0⟩
  | withCapacity n => ⟨[], aligned n⟩
  | ofList bytes => ⟨bytes, aligned bytes.length⟩

/-! ## Both together -/

/-- A buffer whose content and capacity are those of a list. -/
structure Mirrors (l : Plain) (b : Buffer) : Prop where
  content : b.toList = l.content
  capacity : b.capacity = l.capacity
  padded : b.ZeroPadded

namespace Mirrors

variable {l : Plain}

theorem length_eq (h : Mirrors l b) : b.length = l.content.length := by rw [← h.content, length_toList]

theorem grown_eq (h : Mirrors l b) (n : Nat) :
    grown b.length b.capacity n = grown l.content.length l.capacity n := by
  rw [h.length_eq, h.capacity]

theorem reserve (h : Mirrors l b) (n : Nat) :
    Mirrors (l.change (.reserve n)) (b.reserve n) where
  content := (toList_reserve b n).trans h.content
  capacity := (capacity_reserve b n).trans (h.grown_eq n)
  padded := h.padded.reserve n

theorem append (h : Mirrors l b) (bytes : Bytes) :
    Mirrors (l.change (.append bytes)) (b.append bytes) where
  content := (toList_append b bytes).trans (congrArg (· ++ bytes) h.content)
  capacity := (capacity_append b bytes).trans (h.grown_eq _)
  padded := h.padded.append bytes

end Mirrors

/-- How something that is done to a buffer ends: with a buffer of this list, and nothing written
outside, or without an answer, since the list takes more than can be allocated or something is
written outside. -/
def Ends (l : Plain) (inside : Prop) : Option Buffer → Prop
  | some b => Mirrors l b ∧ inside
  | none => maxSize < l.capacity ∨ ¬ inside

/-- What is done with the buffer after that, which gives none of the capacity up. -/
theorem Ends.bind {l l' : Plain} {inside inside' : Prop} {answer : Option Buffer}
    {next : Buffer → Option Buffer} (h : Ends l inside answer) (hle : l.capacity ≤ l'.capacity)
    (hnext : ∀ b, Mirrors l b → Ends l' inside' (next b)) :
    Ends l' (inside ∧ inside') (answer.bind next) := by
  cases answer with
  | none => exact h.imp (Nat.lt_of_lt_of_le · hle) fun hout hin => hout hin.1
  | some b =>
    have hends := hnext b h.1
    rw [Option.bind_some]
    cases hb' : next b with
    | none =>
      rw [hb'] at hends
      exact hends.imp_right fun hout hin => hout hin.2
    | some b' =>
      rw [hb'] at hends
      exact ⟨hends.1, h.2, hends.2⟩

namespace Mirrors

variable {l : Plain}

/-! ### One change -/

theorem reserve? (h : Mirrors l b) (hfits : (l.change (.reserve n)).capacity < 2 ^ indexBits) :
    Ends (l.change (.reserve n)) True (b.reserve? n) := by
  have hgrown : grown b.length b.capacity n = (l.change (.reserve n)).capacity := h.grown_eq n
  rw [reserve?_eq (by rwa [hgrown])]
  split
  next => exact ⟨h.reserve n, trivial⟩
  next hlarge =>
    rw [not_or, hgrown] at hlarge
    exact .inl (Nat.lt_of_not_le hlarge.2)

/-- What is appended unless its size says that it cannot be. -/
theorem append? (h : Mirrors l b) (bytes : Bytes) :
    Ends (l.change (.append bytes)) True
      (if aligned (b.length + bytes.length) ≤ maxSize then some (b.append bytes) else none) := by
  split
  next => exact ⟨h.append bytes, trivial⟩
  next hlarge =>
    have hle : aligned (l.content.length + bytes.length) ≤ (l.change (.append bytes)).capacity :=
      aligned_le_grown (h.capacity ▸ h.padded.aligned)
    rw [h.length_eq] at hlarge
    exact .inl (Nat.lt_of_lt_of_le (Nat.lt_of_not_le hlarge) hle)

theorem appendRepeated? (h : Mirrors l b) (pattern : Bytes) (count : Nat) :
    Ends (l.change (.appendRepeated pattern count)) True (b.appendRepeated? pattern count) := by
  have hsize : (List.replicate count pattern).flatten.length = pattern.length * count := by
    simp [Nat.mul_comm]
  have hends := h.append? (List.replicate count pattern).flatten
  simpa only [appendRepeated?_eq, appendWhole_eq, Plain.change, Change.apply, Change.room, hsize] using hends

theorem appendZeros? (h : Mirrors l b) (n : Nat) :
    Ends (l.change (.appendZeros n [])) True (b.appendZeros? n) := by
  have hends := h.append? (List.replicate n 0)
  simpa only [Buffer.appendZeros?, appendZeros, Plain.change, Change.apply, Change.room, List.foldl_nil,
    List.length_replicate] using hends

theorem write? (h : Mirrors l b) (start : Nat) (bytes : Bytes) :
    Ends ⟨overwritten l.content start bytes, l.capacity⟩ (start + bytes.length ≤ l.content.length)
      (b.write? start bytes) := by
  rcases Nat.lt_or_ge b.length (start + bytes.length) with hout | hin
  · rw [write?_eq_none hout]
    rw [h.length_eq] at hout
    exact .inr (Nat.not_le.mpr hout)
  · obtain ⟨b', hb', hpadded, hcapacity, hlist⟩ := write?_ok h.padded hin
    rw [hb']
    rw [h.length_eq] at hin
    exact ⟨⟨by rw [hlist, h.content], hcapacity.trans h.capacity, hpadded⟩, hin⟩

/-- Writes over the end of a buffer leave what is before it. -/
theorem writeAll? {front region : Bytes} {capacity : Nat} {b : Buffer}
    (h : Mirrors ⟨front ++ region, capacity⟩ b) (writes : List (Nat × Bytes)) :
    Ends ⟨front ++ writes.foldl (fun region w => overwritten region w.1 w.2) region, capacity⟩
      (∀ w ∈ writes, w.1 + w.2.length ≤ region.length) (b.writeAll? front.length writes) := by
  induction writes generalizing region b with
  | nil => exact ⟨h, by simp⟩
  | cons w writes ih =>
    have hfirst : Ends ⟨front ++ overwritten region w.1 w.2, capacity⟩ (w.1 + w.2.length ≤ region.length)
        (b.write? (front.length + w.1) w.2) := by
      have hw := h.write? (front.length + w.1) w.2
      simpa [overwritten_append, Nat.add_assoc] using hw
    have hends := hfirst.bind (Nat.le_refl capacity) fun _ hb => ih hb
    rw [length_overwritten] at hends
    rw [List.forall_mem_cons]
    exact hends

/-! ### Any change, and any number -/

/-- **One change** keeps the buffer and the list together. -/
theorem change? (h : Mirrors l b) (c : Change) (hfits : (l.change c).capacity < 2 ^ indexBits) :
    Ends (l.change c) (c.Inside l.content.length) (b.change? c) := by
  cases c with
  | reserve n => exact h.reserve? hfits
  | append bytes => exact ⟨h.append bytes, trivial⟩
  | appendRepeated pattern count => exact h.appendRepeated? pattern count
  | appendZeros n writes =>
    have hwritten (b' : Buffer) (hb' : Mirrors (l.change (.appendZeros n [])) b') :
        Ends (l.change (.appendZeros n writes)) (∀ w ∈ writes, w.1 + w.2.length ≤ n)
          (b'.writeAll? b.length writes) := by
      have hends := hb'.writeAll? writes
      rw [List.foldl_nil, List.length_replicate] at hends
      rw [h.length_eq]
      exact hends
    have hends := (h.appendZeros? n).bind (Nat.le_refl (l.change (.appendZeros n writes)).capacity) hwritten
    rwa [true_and] at hends
  | write start bytes =>
    have hends := h.write? start bytes
    have hroom : l.content.length + 0 ≤ l.capacity := by
      rw [← h.length_eq, ← h.capacity]
      exact b.length_le
    rwa [← grown_of_le hroom] at hends

/-- **Any number of changes** do. -/
theorem run? (h : Mirrors l b) (changes : List Change) (hfits : (l.run changes).capacity < 2 ^ indexBits) :
    Ends (l.run changes) (l.Inside changes) (b.run? changes) := by
  induction changes generalizing l b with
  | nil => exact ⟨h, trivial⟩
  | cons c changes ih =>
    have hle := (l.change c).capacity_le_run changes
    exact (h.change? c (Nat.lt_of_le_of_lt hle hfits)).bind hle fun _ hb => ih hb hfits

end Mirrors

/-- **A new buffer** is that of its list. -/
theorem Origin.ends_make? (o : Origin) : Ends o.plain True o.make? := by
  cases o with
  | empty => exact ⟨⟨rfl, rfl, Nat.dvd_zero _, rfl⟩, trivial⟩
  | withCapacity n =>
    simp only [make?, withCapacity?]
    split
    next =>
      obtain ⟨hpadded, hlist⟩ := zeroPadded_of_storage (withStorage (aligned n)) [] (aligned n)
        (by simpa [capacity, withStorage] using alignment_dvd_aligned n) rfl rfl
      exact ⟨⟨hlist, by simp [capacity, withStorage, plain], hpadded⟩, trivial⟩
    next hlarge => exact .inl (Nat.lt_of_not_le hlarge)
  | ofList bytes =>
    have hcapacity : (Buffer.ofList bytes).capacity = aligned bytes.length := by
      have := le_aligned bytes.length
      simp only [capacity, Buffer.ofList, List.length_append, List.length_replicate]
      omega
    obtain ⟨hpadded, hlist⟩ := zeroPadded_of_storage (.ofList bytes) bytes _
      (hcapacity ▸ alignment_dvd_aligned _) rfl rfl
    exact ⟨⟨hlist, hcapacity, hpadded⟩, trivial⟩

theorem Origin.ends_run? (o : Origin) (changes : List Change)
    (hfits : (o.plain.run changes).capacity < 2 ^ indexBits) :
    Ends (o.plain.run changes) (o.plain.Inside changes) (o.run? changes) := by
  have hle := o.plain.capacity_le_run changes
  have hends := o.ends_make?.bind hle fun _ hb => hb.run? changes hfits
  rwa [true_and] at hends

/-- A buffer's capacity is never less than it was before. -/
theorem Origin.capacity_le_of_run? {o : Origin} {before after : List Change}
    (hfits : (o.plain.run (before ++ after)).capacity < 2 ^ indexBits)
    (hb : o.run? (before ++ after) = some b) :
    ∃ earlier, o.run? before = some earlier ∧ earlier.capacity ≤ b.capacity := by
  have hends := o.ends_run? (before ++ after) hfits
  have hle : (o.plain.run before).capacity ≤ (o.plain.run (before ++ after)).capacity := by
    rw [Plain.run_append]
    exact Plain.capacity_le_run _ after
  have hbefore := o.ends_run? before (Nat.lt_of_le_of_lt hle hfits)
  rw [hb] at hends
  rw [Origin.run?_append] at hb
  obtain ⟨earlier, hearlier, -⟩ := Option.bind_eq_some_iff.mp hb
  rw [hearlier] at hbefore
  exact ⟨earlier, hearlier, by rwa [hbefore.1.capacity, hends.1.capacity]⟩

/-- **A buffer is a plain list of bytes with aligned storage that is zero past it.** However it came
to be and whatever was done to it, as long as the sizes are indices (none of them is more than the
capacity that the list ends with): its content is what the same makes of a plain list, there is
no more of it than of the capacity, which is aligned and was never greater before, and all that is
allocated past it is zero. Room for more is there once it is reserved, and the content is as it
was. Nothing but a write outside of the content leaves it without an answer where that capacity can
be allocated. -/
theorem Origin.run?_plain (o : Origin) (changes : List Change)
    (hfits : (o.plain.run changes).capacity < 2 ^ indexBits) :
    (∀ b, o.run? changes = some b →
      b.toList = changes.foldl Change.apply o.plain.content ∧
      b.length = b.toList.length ∧ b.capacity = (o.plain.run changes).capacity ∧
      b.length ≤ b.capacity ∧ alignment ∣ b.capacity ∧
      (∀ i, b.length ≤ i → i < b.capacity → b.storage[i]? = some 0) ∧
      (∀ before after, changes = before ++ after →
        ∃ earlier, o.run? before = some earlier ∧ earlier.capacity ≤ b.capacity) ∧
      ∀ n, grown b.length b.capacity n < 2 ^ indexBits →
        (grown b.length b.capacity n ≤ maxSize → ∃ b', b.reserve? n = some b') ∧
        ∀ b', b.reserve? n = some b' → b.length + n ≤ b'.capacity ∧ b'.toList = b.toList) ∧
    ((o.plain.run changes).capacity ≤ maxSize →
      ((∃ b, o.run? changes = some b) ↔ o.plain.Inside changes)) := by
  have hends := o.ends_run? changes hfits
  constructor
  · intro b hb
    rw [hb] at hends
    obtain ⟨hmirrors, -⟩ := hends
    refine ⟨by rw [hmirrors.content, Plain.content_run], (length_toList b).symm, hmirrors.capacity,
      b.length_le, hmirrors.padded.aligned, fun i => hmirrors.padded.getElem?, ?_,
      fun n hn => ⟨fun hle => ?_, fun b' => ?_⟩⟩
    · rintro before after rfl
      exact Origin.capacity_le_of_run? hfits hb
    · exact ⟨_, (reserve?_eq hn).trans (if_pos (.inr hle))⟩
    · exact reserve?_eq_some hn
  · intro hallocable
    cases hrun : o.run? changes with
    | none =>
      rw [hrun] at hends
      have hout := hends.resolve_left (Nat.not_lt.mpr hallocable)
      simp [hout]
    | some b =>
      rw [hrun] at hends
      simp [hends.2]

/-- A buffer that grows twice, is filled with copies of something and of nothing, and is written
over twice. -/
theorem Origin.run?_plain_sample :
    let changes : List Change := [.append [1, 2, 3], .appendRepeated [4, 5] 31, .appendRepeated [] 9,
      .reserve 70, .appendZeros 3 [(1, [6])], .write 0 [7]]
    ∃ b, (Origin.withCapacity 10).run? changes = some b ∧
      b.toList = [7, 2, 3] ++ (List.replicate 31 [4, 5]).flatten ++ [0, 6, 0] ∧
      b.capacity = 256 ∧ (∀ i, 68 ≤ i → i < b.capacity → b.storage[i]? = some 0) ∧
      ∃ b', b.reserve? 200 = some b' ∧ 268 ≤ b'.capacity ∧ b'.toList = b.toList := by
  intro changes
  have hcapacity : ((Origin.withCapacity 10).plain.run changes).capacity = 256 := by decide +kernel
  have hcontent : changes.foldl Change.apply (Origin.withCapacity 10).plain.content =
      [7, 2, 3] ++ (List.replicate 31 [4, 5]).flatten ++ [0, 6, 0] := by decide +kernel
  obtain ⟨hlist, hanswers⟩ := Origin.run?_plain (.withCapacity 10) changes (by rw [hcapacity]; decide)
  obtain ⟨b, hb⟩ := (hanswers (by rw [hcapacity]; decide)).mpr (by decide +kernel)
  obtain ⟨hb_list, hlength, hb_capacity, -, -, hzero, -, hreserve⟩ := hlist b hb
  rw [hcontent] at hb_list
  rw [hb_list] at hlength
  have hb_length : b.length = 68 := hlength.trans (by decide +kernel)
  rw [hcapacity] at hb_capacity
  rw [hb_length] at hzero hreserve
  obtain ⟨hanswer, hkept⟩ := hreserve 200 (by rw [hb_capacity]; decide +kernel)
  obtain ⟨b', hb'⟩ := hanswer (by rw [hb_capacity]; decide +kernel)
  exact ⟨b, hb, hb_list, hb_capacity, hzero, b', hb', hkept b' hb'⟩

end Columnar.Buffer

/-
Tables seen through `find?`, and how many keys they have.

A table built from the empty one has no key twice (`Keyed`), so it is one entry and
all that is under other keys (`Keyed.perm_cons_erase`).
-/
import Columnar.Table

namespace Columnar.Table

variable {κ α : Type} [DecidableEq κ]

@[simp] theorem find?_empty (k : κ) : (∅ : Table κ α).find? k = none := rfl

@[simp] theorem find?_erase_self (t : Table κ α) (k : κ) : (t.erase k).find? k = none := by
  simp [find?, erase, List.find?_eq_none]

theorem find?_erase_of_ne (t : Table κ α) {j k : κ} (h : j ≠ k) : (t.erase k).find? j = t.find? j := by
  simp only [find?, erase, List.find?_filter]
  congr 2
  funext e
  by_cases he : e.1 = j <;> simp [he, h]

@[simp] theorem find?_insert_self (t : Table κ α) (k : κ) (a : α) : (t.insert k a).find? k = some a := by
  obtain ⟨entries⟩ := t
  simp only [find?, insert]
  induction entries with
  | nil => simp [put]
  | cons e entries ih => by_cases he : e.1 = k <;> simp [put, he, ih]

theorem find?_insert_of_ne (t : Table κ α) {j k : κ} (a : α) (h : j ≠ k) :
    (t.insert k a).find? j = t.find? j := by
  have hne : ¬ k = j := fun heq => h heq.symm
  obtain ⟨entries⟩ := t
  simp only [find?, insert]
  induction entries with
  | nil => simp [put, hne]
  | cons e entries ih =>
    by_cases he : e.1 = k
    · simp [put, he, hne]
    · rw [put, if_neg he, List.find?_cons, List.find?_cons]
      split
      · rfl
      · exact ih

theorem find?_insert (t : Table κ α) (j k : κ) (a : α) :
    (t.insert k a).find? j = if j = k then some a else t.find? j := by
  by_cases h : j = k
  · rw [h, find?_insert_self, if_pos rfl]
  · rw [find?_insert_of_ne t a h, if_neg h]

theorem of_find?_insert {t : Table κ α} {j k : κ} {a b : α} (h : (t.insert k a).find? j = some b) :
    j = k ∧ b = a ∨ t.find? j = some b := by
  rw [find?_insert] at h
  split at h
  next heq => exact .inl ⟨heq, (Option.some.inj h).symm⟩
  next => exact .inr h

theorem find?_erase_eq_some {t : Table κ α} {j k : κ} {a : α} :
    (t.erase k).find? j = some a ↔ j ≠ k ∧ t.find? j = some a := by
  by_cases h : j = k
  · simp [h]
  · simp [find?_erase_of_ne t h, h]

theorem erase_insert (t : Table κ α) (k : κ) (a : α) : (t.insert k a).erase k = t.erase k := by
  obtain ⟨entries⟩ := t
  simp only [erase, insert, mk.injEq]
  induction entries with
  | nil => simp [put]
  | cons e entries ih =>
    by_cases he : e.1 = k
    · simp [put, he]
    · rw [put, if_neg he, List.filter_cons, List.filter_cons, ih]

/-- Putting under a key what is there changes nothing. -/
theorem insert_eq_self {t : Table κ α} {k : κ} {a : α} (h : t.find? k = some a) : t.insert k a = t := by
  obtain ⟨entries⟩ := t
  simp only [find?, insert, mk.injEq] at h ⊢
  induction entries with
  | nil => cases h
  | cons e entries ih =>
    by_cases he : e.1 = k
    · obtain rfl : e = (k, a) := by
        simp only [List.find?_cons, he, decide_true, Option.map_some, Option.some.injEq] at h
        exact Prod.ext he h
      simp [put]
    · rw [List.find?_cons_of_neg (by simpa using he)] at h
      simp [put, he, ih h]

/-- A key that is not there is put behind all others. -/
theorem insert_of_none {t : Table κ α} {k : κ} (h : t.find? k = none) (a : α) :
    t.insert k a = ⟨t.entries ++ [(k, a)]⟩ := by
  obtain ⟨entries⟩ := t
  simp only [find?, insert, mk.injEq, Option.map_eq_none_iff] at h ⊢
  induction entries with
  | nil => rfl
  | cons e entries ih =>
    rw [List.find?_cons] at h
    split at h
    next => cases h
    next he => simp [put, of_decide_eq_false he, ih h]

theorem erase_eq_self {t : Table κ α} {k : κ} (h : t.find? k = none) : t.erase k = t := by
  obtain ⟨entries⟩ := t
  simpa [erase, find?, List.filter_eq_self] using h

/-- Past the greatest key there is nothing. -/
theorem find?_succ_of_le {t : Table Nat α} {n : Nat} (h : ∀ k a, t.find? k = some a → k ≤ n) :
    t.find? (n + 1) = none :=
  Option.eq_none_iff_forall_ne_some.mpr fun a ha => Nat.not_succ_le_self n (h _ a ha)

/-! ## Distinct keys -/

/-- That no key has two values. -/
def Keyed (t : Table κ α) : Prop := (t.entries.map (·.1)).Nodup

omit [DecidableEq κ] in
theorem keyed_empty : (∅ : Table κ α).Keyed := List.nodup_nil

variable {t : Table κ α} {k : κ} {a : α}

theorem exists_of_mem {e : κ × α} (he : e ∈ t.entries) : ∃ a, t.find? e.1 = some a := by
  cases hfind : t.find? e.1 with
  | some a => exact ⟨a, rfl⟩
  | none =>
    have hnone := List.find?_eq_none.mp (Option.map_eq_none_iff.mp hfind) e he
    exact absurd (decide_eq_true rfl) hnone

theorem Keyed.erase (h : t.Keyed) (k : κ) : (t.erase k).Keyed :=
  h.sublist (List.filter_sublist.map _)

/-- Whatever was under the key, all else stays. -/
theorem map_fst_put (k : κ) (a : α) (entries : List (κ × α)) :
    (put k a entries).map (·.1) =
      if k ∈ entries.map (·.1) then entries.map (·.1) else entries.map (·.1) ++ [k] := by
  induction entries with
  | nil => rfl
  | cons e entries ih =>
    by_cases he : e.1 = k
    · simp [put, he]
    · have hne : ¬ k = e.1 := fun heq => he heq.symm
      simp only [put, he, if_false, List.map_cons, ih, List.mem_cons, hne, false_or]
      split <;> rfl

theorem Keyed.insert (h : t.Keyed) (k : κ) (a : α) : (t.insert k a).Keyed := by
  rw [Keyed, Table.insert, map_fst_put]
  split
  next => exact h
  next hnew => exact List.nodup_append.mpr ⟨h, by simp, by grind⟩

/-- **One key apart**: its value, and all that is under other keys. -/
theorem Keyed.perm_cons_erase (h : t.Keyed) (hk : t.find? k = some a) :
    t.entries.Perm ((k, a) :: (t.erase k).entries) := by
  obtain ⟨entries⟩ := t
  simp only [Keyed, find?, Table.erase] at h hk ⊢
  induction entries with
  | nil => cases hk
  | cons e entries ih =>
    obtain ⟨hnew, hkeyed⟩ := List.nodup_cons.mp h
    by_cases he : e.1 = k
    · have hothers : entries.filter (·.1 ≠ k) = entries := by
        refine List.filter_eq_self.mpr fun e' he' => decide_eq_true fun heq => hnew ?_
        exact List.mem_map.mpr ⟨e', he', heq.trans he.symm⟩
      obtain rfl : e = (k, a) := by
        simp only [List.find?_cons, he, decide_true, Option.map_some, Option.some.injEq] at hk
        exact Prod.ext he hk
      rw [List.filter_cons_of_neg (by simp), hothers]
    · rw [List.find?_cons_of_neg (by simpa using he)] at hk
      rw [List.filter_cons_of_pos (by simpa using he)]
      exact ((ih hkeyed hk).cons e).trans (.swap _ _ _)

theorem Keyed.size_erase (h : t.Keyed) (hk : t.find? k = some a) : t.size = (t.erase k).size + 1 :=
  (h.perm_cons_erase hk).length_eq

/-- What is under a key now, and all that is under other keys. -/
theorem Keyed.perm_insert (h : t.Keyed) (k : κ) (a : α) :
    (t.insert k a).entries.Perm ((k, a) :: (t.erase k).entries) := by
  have hperm := (h.insert k a).perm_cons_erase (find?_insert_self t k a)
  rwa [erase_insert] at hperm

theorem Keyed.size_insert (h : t.Keyed) (hk : t.find? k = some a) (b : α) :
    (t.insert k b).size = t.size :=
  (h.perm_insert k b).length_eq.trans (h.size_erase hk).symm

theorem size_insert_of_none (hk : t.find? k = none) (a : α) : (t.insert k a).size = t.size + 1 := by
  rw [size, insert_of_none hk, List.length_append]
  rfl

theorem Keyed.perm_values (h : t.Keyed) (hk : t.find? k = some a) :
    t.values.Perm (a :: (t.erase k).values) :=
  (h.perm_cons_erase hk).map _

theorem Keyed.find?_of_mem (h : t.Keyed) {e : κ × α} (he : e ∈ t.entries) :
    t.find? e.1 = some e.2 := by
  obtain ⟨a, hk⟩ := exists_of_mem he
  rcases List.mem_cons.mp ((h.perm_cons_erase hk).mem_iff.mp he) with heq | hrest
  · rw [hk, congrArg Prod.snd heq]
  · exact absurd rfl (of_decide_eq_true (List.mem_filter.mp hrest).2)

theorem Keyed.find?_eq_some (h : t.Keyed) : t.find? k = some a ↔ (k, a) ∈ t.entries :=
  ⟨fun hk => (h.perm_cons_erase hk).mem_iff.mpr List.mem_cons_self, fun he => h.find?_of_mem he⟩

theorem Keyed.mem_values (h : t.Keyed) : a ∈ t.values ↔ ∃ k, t.find? k = some a := by
  constructor
  · intro ha
    obtain ⟨e, he, rfl⟩ := List.mem_map.mp ha
    exact ⟨e.1, h.find?_of_mem he⟩
  · rintro ⟨k, hk⟩
    exact (h.perm_values hk).mem_iff.mpr List.mem_cons_self

/-! ## Keys counted up from zero -/

/-- That the keys are the numbers below the size. -/
def Dense (t : Table Nat α) : Prop := (t.entries.map (·.1)).Perm (List.range t.size)

theorem Dense.keyed {t : Table Nat α} (h : t.Dense) : t.Keyed := h.symm.nodup List.nodup_range

theorem Dense.find?_of_lt {t : Table Nat α} (h : t.Dense) {k : Nat} (hk : k < t.size) :
    ∃ a, t.find? k = some a := by
  have hmem : k ∈ t.entries.map (·.1) := h.mem_iff.mpr (List.mem_range.mpr hk)
  obtain ⟨e, he, rfl⟩ := List.mem_map.mp hmem
  exact exists_of_mem he

/-- Another value under a key that there is. -/
theorem Dense.insert {t : Table Nat α} (h : t.Dense) {k : Nat} (hk : k < t.size) (a : α) :
    (t.insert k a).Dense ∧ (t.insert k a).size = t.size := by
  obtain ⟨b, hb⟩ := h.find?_of_lt hk
  have hsize := h.keyed.size_insert hb a
  refine ⟨?_, hsize⟩
  rw [Dense, hsize]
  have hperm := (h.keyed.perm_insert k a).map Prod.fst
  exact hperm.trans (((h.keyed.perm_cons_erase hb).map Prod.fst).symm.trans h)

/-- The next key is free. -/
theorem Dense.find?_size {t : Table Nat α} (h : t.Dense) : t.find? t.size = none := by
  refine Option.map_eq_none_iff.mpr (List.find?_eq_none.mpr fun e he heq => ?_)
  have hmem : t.size ∈ List.range t.size :=
    h.mem_iff.mp (of_decide_eq_true heq ▸ List.mem_map_of_mem he)
  exact Nat.lt_irrefl _ (List.mem_range.mp hmem)

/-- A value under the next key. -/
theorem Dense.insert_size {t : Table Nat α} (h : t.Dense) (a : α) :
    (t.insert t.size a).Dense ∧ (t.insert t.size a).size = t.size + 1 := by
  have hnone := h.find?_size
  have hsize := size_insert_of_none hnone a
  refine ⟨?_, hsize⟩
  rw [Dense, hsize, insert_of_none hnone, List.map_append, List.range_succ]
  exact List.Perm.append h (List.Perm.refl _)

end Columnar.Table

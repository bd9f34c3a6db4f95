/-
The accounts of a session.

`Session.Balanced` is what holds of a session at any point of a command: what has been
entered in the ledger has been struck out or is still there, and each storage has as many
handles as it has names, counting those that are about to get one. Light deeds leave all
that as it is (`Session.Even`) and each deed that weighs shifts it in its own way, so it
holds after every command, and the ledger after it is told by its reply
(`Session.balance_of_arising`).
-/
import Columnar.Proofs.Replying

namespace Columnar

namespace Session

variable {s t u : Session} {d : Deed} {ds ws ws' : List Deed} {hands : List Nat} {inner id : Nat}

/-! ## Sessions with the same accounts -/

/-- How many handles a storage has, if it is there. -/
def handles? (s : Session) (id : Nat) : Option Nat := (s.storages.find? id).map (·.handles)

/-- That a session has the names, the builders and the accounts of another. -/
structure Even (s t : Session) : Prop where
  ledger : t.ledger = s.ledger
  builders : t.builders = s.builders
  vectors : t.vectors = s.vectors
  handles : ∀ id, t.handles? id = s.handles? id
  keyed : s.storages.Keyed → t.storages.Keyed ∧ t.storages.size = s.storages.size

theorem Even.refl (s : Session) : s.Even s := ⟨rfl, rfl, rfl, fun _ => rfl, fun h => ⟨h, rfl⟩⟩

theorem Even.trans (h : s.Even t) (h' : t.Even u) : s.Even u where
  ledger := h'.ledger.trans h.ledger
  builders := h'.builders.trans h.builders
  vectors := h'.vectors.trans h.vectors
  handles id := (h'.handles id).trans (h.handles id)
  keyed hkeyed := by
    obtain ⟨ht, hsize⟩ := h.keyed hkeyed
    exact ⟨(h'.keyed ht).1, (h'.keyed ht).2.trans hsize⟩

theorem even_setRuntime (s : Session) (i : Nat) (r : Runtime) : s.Even (s.setRuntime i r) :=
  ⟨rfl, rfl, rfl, fun _ => rfl, fun h => ⟨h, rfl⟩⟩

theorem handles?_setStorage (s : Session) (j : Nat) (st : Storage) (id : Nat) :
    (s.setStorage j st).handles? id = if id = j then some st.handles else s.handles? id := by
  rw [handles?, find?_setStorage]
  split <;> rfl

/-- **Light deeds** change no accounts. -/
theorem Does.even (h : s.Does d t) (hlight : d.isLight = true) : s.Even t := by
  cases h with
  | aside => exact ⟨rfl, rfl, rfl, fun _ => rfl, fun h => ⟨h, rfl⟩⟩
  | miss | send => exact even_setRuntime _ _ _
  | @fetch j st d buffers r hst =>
    refine (even_setRuntime s d.runtime r).trans ⟨rfl, rfl, rfl, fun id => ?_, fun hkeyed => ?_⟩
    · rw [handles?_setStorage]
      split
      next heq =>
        subst heq
        simp [handles?, setRuntime, hst]
      next => rfl
    · exact ⟨hkeyed.insert _ _, hkeyed.size_insert (t := s.storages) hst _⟩
  | _ => cases hlight

theorem even_freePlace (s : Session) (p : Place) : s.Even (s.freePlace p) := by
  unfold Session.freePlace
  split
  · exact .refl s
  · exact even_setRuntime _ _ _

/-- Deeds that weigh, with light ones before and after them. -/
inductive Weighed : Session → List Deed → Session → Prop where
  | even {s t : Session} (h : s.Even t) : Weighed s [] t
  | deed {s s' t' t : Session} {d : Deed} {ws : List Deed} (h : s.Even s') (hd : s'.Does d t')
      (hws : Weighed t' ws t) : Weighed s (d :: ws) t

theorem Weighed.after (h : s.Even t) (h' : t.Weighed ws u) : s.Weighed ws u := by
  cases h' with
  | even h' => exact .even (h.trans h')
  | deed h' hd hws => exact .deed (h.trans h') hd hws

/-- **What weighs in a run**, and nothing else, changes accounts. -/
theorem Runs.weighed (h : s.Runs ds t) : s.Weighed (Deed.weights ds) t := by
  induction h with
  | nil s => exact .even (.refl s)
  | @cons s t u d ds hd _ ih =>
    cases hlight : d.isLight with
    | true =>
      have hws : Deed.weights (d :: ds) = Deed.weights ds := by simp [Deed.weights, hlight]
      rw [hws]
      exact .after (hd.even hlight) ih
    | false =>
      have hws : Deed.weights (d :: ds) = d :: Deed.weights ds := by simp [Deed.weights, hlight]
      rw [hws]
      exact .deed (.refl s) hd ih

/-! ## Balance -/

/-- That the accounts of a session are in order, where `hands` are the storages with a handle
that has no name yet, and `inner` counts the builders that have none: what has been entered
has been struck out or is there, and a storage has as many handles as are counted. -/
structure Balanced (s : Session) (hands : List Nat) (inner : Nat) : Prop where
  vectors : s.vectors.Keyed
  builders : s.builders.Keyed
  storages : s.storages.Keyed
  total : s.ledger.registered =
    s.ledger.released + s.ledger.leaked + (s.builders.size + s.storages.size + inner)
  handles : ∀ id, (s.handles? id).getD 0 = s.vectors.values.count id + hands.count id
  live : ∀ id n, s.handles? id = some n → 0 < n
  ids : ∀ id n, s.handles? id = some n → id ≤ s.ledger.registered

theorem Even.balanced (h : s.Even t) (hs : s.Balanced hands inner) : t.Balanced hands inner where
  vectors := h.vectors ▸ hs.vectors
  builders := h.builders ▸ hs.builders
  storages := (h.keyed hs.storages).1
  total := by rw [h.ledger, h.builders, (h.keyed hs.storages).2, hs.total]
  handles id := by rw [h.handles, h.vectors, hs.handles]
  live id n hn := hs.live id n (h.handles id ▸ hn)
  ids id n hn := h.ledger ▸ hs.ids id n (h.handles id ▸ hn)

namespace Balanced

theorem start (config : Option Config) : ({ config := config } : Session).Balanced [] 0 where
  vectors := Table.keyed_empty
  builders := Table.keyed_empty
  storages := Table.keyed_empty
  total := rfl
  handles _ := rfl
  live _ _ hn := by cases hn
  ids _ _ hn := by cases hn

/-- **A storage is there as long as it has a name**, or is about to get one. -/
theorem isSome_iff (hs : s.Balanced hands inner) :
    (s.handles? id).isSome ↔ id ∈ s.vectors.values ∨ id ∈ hands := by
  have hhandles := hs.handles id
  rw [← List.count_pos_iff, ← List.count_pos_iff]
  cases hn : s.handles? id with
  | none =>
    rw [hn, Option.getD_none] at hhandles
    exact iff_of_false (by simp) (by omega)
  | some n =>
    have hlive := hs.live id n hn
    rw [hn, Option.getD_some] at hhandles
    exact iff_of_true rfl (by omega)

/-- The next number is free. -/
theorem fresh (hs : s.Balanced hands inner) : s.handles? (s.ledger.registered + 1) = none := by
  cases hn : s.handles? (s.ledger.registered + 1) with
  | none => rfl
  | some n => exact absurd (hs.ids _ n hn) (Nat.not_succ_le_self _)

/-! ### Entering and striking out -/

theorem enter (hs : s.Balanced hands inner) :
    ({ s with ledger := s.ledger.register } : Session).Balanced hands (inner + 1) where
  vectors := hs.vectors
  builders := hs.builders
  storages := hs.storages
  total := by
    have := hs.total
    simp only [Ledger.register]
    omega
  handles := hs.handles
  live := hs.live
  ids id n hn := Nat.le_succ_of_le (hs.ids id n hn)

theorem reclaim (hs : s.Balanced hands (inner + 1)) (holder : Holder) (released : Bool) :
    (s.reclaim holder released).Balanced hands inner where
  vectors := vectors_reclaim s holder released ▸ hs.vectors
  builders := builders_reclaim s holder released ▸ hs.builders
  storages := (alike_reclaim s holder released).storages ▸ hs.storages
  total := by
    have := hs.total
    rw [ledger_reclaim, builders_reclaim, (alike_reclaim s holder released).storages, registered_reclaim]
    cases released <;> simp only [Ledger.reclaim, Bool.false_eq_true, if_true, if_false] <;> omega
  handles id := by
    rw [handles?, (alike_reclaim s holder released).storages, vectors_reclaim]
    exact hs.handles id
  live id n hn := hs.live id n (by rwa [handles?, (alike_reclaim s holder released).storages] at hn)
  ids id n hn := by
    rw [ledger_reclaim, registered_reclaim]
    exact hs.ids id n (by rwa [handles?, (alike_reclaim s holder released).storages] at hn)

/-! ### Builders -/

/-- Another builder under a name that has one. -/
theorem setBuilder (hs : s.Balanced hands inner) {name : String} (hname : (s.builders.find? name).isSome)
    (b : Builder) : (s.setBuilder name b).Balanced hands inner where
  vectors := hs.vectors
  builders := hs.builders.insert name b
  storages := hs.storages
  total := by
    obtain ⟨before, hbefore⟩ := Option.isSome_iff_exists.mp hname
    have hsize : (s.setBuilder name b).builders.size = s.builders.size :=
      hs.builders.size_insert hbefore b
    rw [hsize]
    exact hs.total
  handles := hs.handles
  live := hs.live
  ids := hs.ids

/-- A builder that gets a name. -/
theorem nameBuilder (hs : s.Balanced hands (inner + 1)) {name : String}
    (hname : s.builders.find? name = none) (b : Builder) : (s.setBuilder name b).Balanced hands inner where
  vectors := hs.vectors
  builders := hs.builders.insert name b
  storages := hs.storages
  total := by
    have htotal := hs.total
    have hsize : (s.setBuilder name b).builders.size = s.builders.size + 1 :=
      Table.size_insert_of_none hname b
    rw [hsize]
    show s.ledger.registered = s.ledger.released + s.ledger.leaked + (s.builders.size + 1 + s.storages.size + inner)
    omega
  handles := hs.handles
  live := hs.live
  ids := hs.ids

theorem dropBuilder (hs : s.Balanced hands inner) (name : String) :
    (s.dropBuilder name).Balanced hands inner ∧ (s.dropBuilder name).builders.find? name = none := by
  unfold Session.dropBuilder
  cases hname : s.builders.find? name with
  | none => exact ⟨hs, hname⟩
  | some b =>
    have hunnamed : ({ s with builders := s.builders.erase name } : Session).Balanced hands (inner + 1) := {
      vectors := hs.vectors
      builders := hs.builders.erase name
      storages := hs.storages
      total := by
        have htotal := hs.total
        have hsize := hs.builders.size_erase hname
        simp only
        omega
      handles := hs.handles
      live := hs.live
      ids := hs.ids }
    refine ⟨hunnamed.reclaim _ _, ?_⟩
    rw [builders_reclaim]
    exact Table.find?_erase_self _ _

/-! ### Vectors -/

/-- A new storage, with a handle that has no name yet. -/
theorem addStorage (hs : s.Balanced hands inner) (shape : Shape) (place : Place) :
    (s.addStorage shape place).2.Balanced ((s.ledger.registered + 1) :: hands) inner := by
  have hfresh := hs.fresh
  have hhandles (id : Nat) : (s.addStorage shape place).2.handles? id =
      if id = s.ledger.registered + 1 then some 1 else s.handles? id := by
    rw [handles?, find?_addStorage]
    split <;> rfl
  refine ⟨hs.vectors, hs.builders, hs.storages.insert _ _, ?_, fun id => ?_, fun id n hn => ?_, fun id n hn => ?_⟩
  · have htotal := hs.total
    have hsize : (s.addStorage shape place).2.storages.size = s.storages.size + 1 :=
      Table.size_insert_of_none (Option.map_eq_none_iff.mp hfresh) _
    rw [hsize]
    show s.ledger.registered + 1 =
      s.ledger.released + s.ledger.leaked + (s.builders.size + (s.storages.size + 1) + inner)
    omega
  · have hcount := hs.handles id
    rw [hhandles]
    show _ = s.vectors.values.count id + _
    split
    next heq =>
      rw [heq, hfresh] at hcount
      simp only [Option.getD_none, Option.getD_some, List.count_cons, heq, beq_self_eq_true, if_true] at hcount ⊢
      omega
    next hne => rw [hcount, List.count_cons_of_ne (Ne.symm hne)]
  · rw [hhandles] at hn
    split at hn
    · cases hn
      exact Nat.one_pos
    · exact hs.live id n hn
  · rw [hhandles] at hn
    show id ≤ s.ledger.registered + 1
    split at hn
    next heq => exact Nat.le_of_eq heq
    next => exact Nat.le_succ_of_le (hs.ids id n hn)

/-- Handles of one storage that come or go. -/
theorem recount (hs : s.Balanced hands inner) {st st' : Storage} (hst : s.storages.find? id = some st)
    {vectors : Table String Nat} (hkeyed : vectors.Keyed) {hands' : List Nat} (hlive : 0 < st'.handles)
    (hcount : ∀ j, (if j = id then st'.handles else (s.handles? j).getD 0) =
      vectors.values.count j + hands'.count j) :
    (({ s with vectors := vectors } : Session).setStorage id st').Balanced hands' inner := by
  have hn : s.handles? id = some st.handles := by simp [handles?, hst]
  refine ⟨hkeyed, hs.builders, hs.storages.insert _ _, ?_, fun j => ?_, fun j n hj => ?_, fun j n hj => ?_⟩
  · have hsize : (({ s with vectors := vectors } : Session).setStorage id st').storages.size =
        s.storages.size := hs.storages.size_insert hst _
    rw [hsize]
    exact hs.total
  · refine Eq.trans ?_ (hcount j)
    rw [handles?_setStorage]
    split <;> rfl
  all_goals
    rw [handles?_setStorage] at hj
    split at hj
  next =>
    cases hj
    exact hlive
  next => exact hs.live j n hj
  next heq => exact heq ▸ hs.ids id _ hn
  next => exact hs.ids j n hj

/-- One more handle, without a name yet. -/
theorem share (hs : s.Balanced hands inner) {st : Storage} (hst : s.storages.find? id = some st) :
    (s.setStorage id { st with handles := st.handles + 1 }).Balanced (id :: hands) inner := by
  have hn : s.handles? id = some st.handles := by simp [handles?, hst]
  refine hs.recount hst hs.vectors (Nat.succ_pos _) fun j => ?_
  have hcount := hs.handles j
  split
  next heq =>
    subst heq
    rw [hn, Option.getD_some] at hcount
    rw [hcount, List.count_cons_self, Nat.add_assoc]
  next hne => rw [hcount, List.count_cons_of_ne (Ne.symm hne)]

theorem count_erase (hs : s.Balanced hands inner) {name : String}
    (hname : s.vectors.find? name = some id) (j : Nat) :
    s.vectors.values.count j = (s.vectors.erase name).values.count j + if id = j then 1 else 0 := by
  rw [(hs.vectors.perm_values hname).count_eq, List.count_cons]
  simp only [beq_iff_eq]

/-- **The last handle** takes its storage with it, which is still to be struck out. -/
theorem eraseLast (hs : s.Balanced hands inner) {name : String} {st : Storage}
    (hid : s.vectors.find? name = some id) (hst : s.storages.find? id = some st) (hlast : st.handles ≤ 1) :
    ({ s with vectors := s.vectors.erase name, storages := s.storages.erase id } : Session).Balanced
      hands (inner + 1) := by
  have hn : s.handles? id = some st.handles := by simp [handles?, hst]
  have hhandles (j : Nat) : ({ s with
      vectors := s.vectors.erase name, storages := s.storages.erase id } : Session).handles? j =
      if j = id then none else s.handles? j := by
    split
    next heq => simp [handles?, heq]
    next hne => simp [handles?, Table.find?_erase_of_ne _ hne]
  refine ⟨hs.vectors.erase name, hs.builders, hs.storages.erase id, ?_, fun j => ?_, fun j n hj => ?_,
    fun j n hj => ?_⟩
  · have htotal := hs.total
    have hsize := hs.storages.size_erase hst
    simp only
    omega
  · have hcount := hs.handles j
    have herase := hs.count_erase hid j
    have hlive := hs.live id _ hn
    rw [hhandles]
    simp only
    split
    next heq =>
      subst heq
      rw [hn, Option.getD_some] at hcount
      rw [if_pos rfl] at herase
      rw [Option.getD_none]
      omega
    next hne =>
      rw [if_neg (Ne.symm hne)] at herase
      rw [hcount, herase, Nat.add_zero]
  all_goals
    rw [hhandles] at hj
    split at hj
    · cases hj
  · exact hs.live j n hj
  · exact hs.ids j n hj

/-- **A handle that is given up**: with the last one the storage goes. -/
theorem unbind (hs : s.Balanced hands inner) (name : String) (released : Bool) :
    (s.unbind name released).Balanced hands inner ∧ (s.unbind name released).vectors.find? name = none := by
  have h := s.unbound_unbind name released
  generalize s.unbind name released = t at h
  cases h with
  | absent hid => exact ⟨hs, hid⟩
  | @dangling id hid hst =>
    have hcount := hs.handles id
    have herase := hs.count_erase hid id
    rw [handles?, hst] at hcount
    simp only [Option.map_none, Option.getD_none, if_true] at hcount herase
    omega
  | @last id st hid hst hlast =>
    refine ⟨((even_freePlace _ st.place).balanced (hs.eraseLast hid hst hlast)).reclaim _ _, ?_⟩
    rw [vectors_reclaim, (even_freePlace _ st.place).vectors]
    exact Table.find?_erase_self _ _
  | @shared id st hid hst hmore =>
    have hn : s.handles? id = some st.handles := by simp [handles?, hst]
    refine ⟨hs.recount hst (hs.vectors.erase name) (Nat.sub_pos_of_lt hmore) fun j => ?_,
      Table.find?_erase_self _ _⟩
    have hcount := hs.handles j
    have herase := hs.count_erase hid j
    split
    next heq =>
      subst heq
      rw [hn, Option.getD_some] at hcount
      rw [if_pos rfl] at herase
      show st.handles - 1 = _
      omega
    next hne =>
      rw [if_neg (Ne.symm hne), Nat.add_zero] at herase
      rw [hcount, herase]

/-- A handle that gets a name. -/
theorem bind (hs : s.Balanced (id :: hands) inner) {name : String} (hname : s.vectors.find? name = none) :
    ({ s with vectors := s.vectors.insert name id } : Session).Balanced hands inner := by
  refine ⟨hs.vectors.insert name id, hs.builders, hs.storages, hs.total, fun j => ?_, hs.live, hs.ids⟩
  have hcount := hs.handles j
  have hvalues : (s.vectors.insert name id).values = s.vectors.values ++ [id] := by
    rw [Table.values, Table.insert_of_none hname, List.map_append]
    rfl
  show (s.handles? j).getD 0 = (s.vectors.insert name id).values.count j + _
  rw [hcount, hvalues, List.count_cons, List.count_append, List.count_singleton]
  omega

end Balanced

/-! ## What weighs, one deed after the other -/

theorem lastHandle_eq (s : Session) (name : String) :
    s.lastHandle name = ((s.vectors.find? name).bind s.handles?).any (· ≤ 1) := by
  unfold lastHandle storage? handles?
  cases s.vectors.find? name with
  | none => rfl
  | some id =>
    simp only [Option.bind_eq_bind, Option.bind_some, Option.pure_def]
    cases s.storages.find? id <;> rfl

theorem lastHandle_congr {name : String} (hvectors : t.vectors = s.vectors)
    (h : ∀ id, s.vectors.find? name = some id → t.handles? id = s.handles? id) :
    t.lastHandle name = s.lastHandle name := by
  rw [lastHandle_eq, lastHandle_eq, hvectors]
  cases hid : s.vectors.find? name with
  | none => rfl
  | some id => rw [Option.bind_some, Option.bind_some, h id hid]

/-- That the ledger of a session shifts, and neither its names do nor who has a last handle. -/
structure Shifts (s : Session) (l : Ledger) (t : Session) : Prop where
  ledger : t.ledger = l
  builders : t.builders = s.builders
  lastHandle : ∀ name, t.lastHandle name = s.lastHandle name

theorem Shifts.trans {l l' : Ledger} (h : s.Shifts l t) (h' : t.Shifts l' u) : s.Shifts l' u where
  ledger := h'.ledger
  builders := h'.builders.trans h.builders
  lastHandle name := (h'.lastHandle name).trans (h.lastHandle name)

theorem Even.shifts (h : s.Even t) : s.Shifts s.ledger t where
  ledger := h.ledger
  builders := h.builders
  lastHandle _ := lastHandle_congr h.vectors fun id _ => h.handles id

namespace Weighed

theorem cons (h : s.Weighed (d :: ws) t) : ∃ s' u, s.Even s' ∧ s'.Does d u ∧ u.Weighed ws t := by
  cases h with
  | deed h hd hws => exact ⟨_, _, h, hd, hws⟩

theorem nil (h : s.Weighed [] t) (hs : s.Balanced hands inner) : t.Balanced hands inner ∧ t.ledger = s.ledger := by
  cases h with
  | even h => exact ⟨h.balanced hs, h.ledger⟩

theorem enter (h : s.Weighed (.enter :: ws) t) (hs : s.Balanced hands inner) :
    ∃ u, u.Weighed ws t ∧ u.Balanced hands (inner + 1) ∧ s.Shifts s.ledger.register u := by
  obtain ⟨s', _, heven, ⟨⟩, hws⟩ := h.cons
  refine ⟨_, hws, (heven.balanced hs).enter, heven.shifts.trans ?_⟩
  exact ⟨congrArg Ledger.register heven.ledger, rfl, fun _ => rfl⟩

theorem giveUp (h : s.Weighed (.giveUp :: ws) t) (hs : s.Balanced hands (inner + 1)) :
    ∃ u, u.Weighed ws t ∧ u.Balanced hands inner ∧ s.Shifts (s.ledger.reclaim true) u := by
  obtain ⟨s', _, heven, ⟨⟩, hws⟩ := h.cons
  refine ⟨_, hws, (heven.balanced hs).reclaim _ _, heven.shifts.trans ⟨?_, builders_reclaim _ _ _, fun _ => ?_⟩⟩
  · rw [ledger_reclaim, heven.ledger]
  · refine lastHandle_congr (vectors_reclaim _ _ _) fun id _ => ?_
    rw [handles?, (alike_reclaim _ _ _).storages, handles?]

theorem adds (h : s.Weighed (d :: ws) t) (hd : d.Adds id) (hs : s.Balanced hands inner) :
    ∃ u, u.Weighed ws t ∧ u.Balanced (id :: hands) inner ∧ s.Shifts s.ledger.register u := by
  obtain ⟨s', u, heven, hdoes, hws⟩ := h.cons
  have hnew {s : Session} (hs : s.Balanced hands inner) (shape : Shape) (place : Place) :
      s.Shifts s.ledger.register (s.addStorage shape place).2 := by
    refine ⟨rfl, rfl, fun name => lastHandle_congr rfl fun id hid => ?_⟩
    have hmem : id ∈ s.vectors.values := hs.vectors.mem_values.mpr ⟨name, hid⟩
    rw [handles?, find?_addStorage]
    split
    next heq =>
      have := hs.isSome_iff.mpr (.inl hmem)
      rw [heq, hs.fresh] at this
      cases this
    next => rfl
  have hs' := heven.balanced hs
  rw [← heven.ledger]
  cases hdoes with
  | store shape p =>
    cases hd
    exact ⟨_, hws, hs'.addStorage _ _, heven.shifts.trans (hnew hs' _ _)⟩
  | @deploy b i allocations r =>
    cases hd
    have hruntime := even_setRuntime s' i r
    have hs'' := hruntime.balanced hs'
    exact ⟨_, hws, hs''.addStorage _ _, (heven.shifts.trans hruntime.shifts).trans (hnew hs'' _ _)⟩
  | _ => cases hd

/-- A storage that is shared loses none of its handles as the last. -/
theorem share (h : s.Weighed (.share id :: ws) t) (hs : s.Balanced hands inner) :
    ∃ u : Session, u.Weighed ws t ∧ u.Balanced (id :: hands) inner ∧ u.ledger = s.ledger ∧
      ∀ name, u.lastHandle name =
        if s.vectors.find? name = some id then false else s.lastHandle name := by
  obtain ⟨s', _, heven, hdoes, hws⟩ := h.cons
  cases hdoes with
  | @share _ st hst =>
    have hs' := heven.balanced hs
    refine ⟨_, hws, hs'.share hst, heven.ledger, fun name => ?_⟩
    rw [← heven.shifts.lastHandle, ← heven.vectors]
    split
    next hid =>
      have hlive := hs'.live id st.handles (by simp [handles?, hst])
      rw [lastHandle_eq]
      show ((s'.vectors.find? name).bind _).any _ = _
      rw [hid, Option.bind_some, handles?_setStorage, if_pos rfl]
      simp only [Option.any_some, decide_eq_false_iff_not]
      omega
    next hid =>
      refine lastHandle_congr rfl fun j hj => ?_
      rw [handles?_setStorage, if_neg]
      rintro rfl
      exact hid hj

theorem setBuilder {name : String} (h : s.Weighed (.setBuilder name :: ws) t) (hs : s.Balanced hands inner)
    (hname : (s.builders.find? name).isSome) :
    ∃ u : Session, u.Weighed ws t ∧ u.Balanced hands inner ∧ u.ledger = s.ledger ∧
      ∀ name, u.lastHandle name = s.lastHandle name := by
  obtain ⟨s', _, heven, ⟨⟩, hws⟩ := h.cons
  exact ⟨_, hws, (heven.balanced hs).setBuilder (by rwa [heven.builders]) _, heven.ledger,
    heven.shifts.lastHandle⟩

theorem dropBuilder {name : String} (h : s.Weighed (.dropBuilder name :: ws) t) (hs : s.Balanced hands inner) :
    ∃ u : Session, u.Weighed ws t ∧ u.Balanced hands inner ∧ u.builders.find? name = none ∧
      u.ledger = s.ledgerDropped name s.ledger := by
  obtain ⟨s', _, heven, hdoes, hws⟩ := h.cons
  have hledger := hdoes.ledger
  cases hdoes with
  | dropBuilder =>
    obtain ⟨hbalanced, hnone⟩ := (heven.balanced hs).dropBuilder name
    refine ⟨_, hws, hbalanced, hnone, hledger.trans ?_⟩
    simp only [ledgerAfter, ledgerDropped, heven.builders, heven.ledger]

theorem nameBuilder {name : String} (h : s.Weighed (.setBuilder name :: ws) t)
    (hs : s.Balanced hands (inner + 1)) (hname : s.builders.find? name = none) :
    ∃ u : Session, u.Weighed ws t ∧ u.Balanced hands inner ∧ u.ledger = s.ledger := by
  obtain ⟨s', _, heven, ⟨⟩, hws⟩ := h.cons
  exact ⟨_, hws, (heven.balanced hs).nameBuilder (by rwa [heven.builders]) _, heven.ledger⟩

theorem newRuntime (h : s.Weighed (.newRuntime :: ws) t) (hs : s.Balanced hands inner) :
    ∃ u : Session, u.Weighed ws t ∧ u.Balanced hands inner ∧ u.ledger = s.ledger := by
  obtain ⟨s', _, heven, ⟨⟩, hws⟩ := h.cons
  obtain ⟨hvectors, hbuilders, hstorages, htotal, hhandles, hlive, hids⟩ := heven.balanced hs
  exact ⟨_, hws, ⟨hvectors, hbuilders, hstorages, htotal, hhandles, hlive, hids⟩, heven.ledger⟩

theorem unbind {name : String} {released : Bool} (h : s.Weighed (.unbind name released :: ws) t)
    (hs : s.Balanced hands inner) :
    ∃ u : Session, u.Weighed ws t ∧ u.Balanced hands inner ∧ u.vectors.find? name = none ∧
      u.ledger = s.ledgerUnbound name released s.ledger := by
  obtain ⟨s', _, heven, hdoes, hws⟩ := h.cons
  have hledger := hdoes.ledger
  cases hdoes with
  | unbind =>
    obtain ⟨hbalanced, hnone⟩ := (heven.balanced hs).unbind name released
    refine ⟨_, hws, hbalanced, hnone, hledger.trans ?_⟩
    simp only [ledgerAfter, ledgerUnbound, heven.shifts.lastHandle, heven.ledger]

/-- The handle under a name goes when the name is given to another storage. -/
theorem settle {target : String} (h : s.Weighed [.unbind target false, .bind target id] t)
    (hs : s.Balanced [id] 0) :
    t.Balanced [] 0 ∧ t.ledger = s.ledgerUnbound target false s.ledger := by
  obtain ⟨u, hu, hbalanced, hnone, hledger⟩ := h.unbind hs
  obtain ⟨u', w, heven, ⟨⟩, hw⟩ := hu.cons
  obtain ⟨ht, hsame⟩ := hw.nil ((heven.balanced hbalanced).bind (by rwa [heven.vectors]))
  exact ⟨ht, hsame.trans (heven.ledger.trans hledger)⟩

end Weighed

end Session

/-! ## Commands -/

/-- A ledger once a vector has been made that has no name yet. The builder that a recipe
needs is given up on purpose. -/
def Making.ledger (l : Ledger) : Making → Ledger
  | .assemble _ => l.register.register.reclaim true
  | .share _ => l
  | _ => l.register

/-- A ledger after an attempt to make a vector that has come to nothing: the builder of a
recipe is given up on purpose all the same. -/
def Making.ledgerInVain (l : Ledger) : Making → Ledger
  | .assemble r =>
    match Builder.create r.kind r.capacity false with
    | .ok _ => l.register.reclaim true
    | .error _ => l
  | _ => l

/-- Whether a name is given to the storage that it has. -/
def Making.isOf (s : Session) (target : String) : Making → Bool
  | .share v => s.vectors.find? target = s.vectors.find? v
  | _ => false

namespace Session

variable {s t : Session} {ws made : List Deed} {id : Nat} {m : Making} {c : Command} {r : Reply}

/-- **The ledger after a command**, given its reply. What is made is entered, and what
was under its name is struck out, unless it has other names; a builder that is dropped has
leaked if it was open, and a vector has been released if its last handle was closed. -/
def account (s : Session) (c : Command) (r : Reply) : Ledger :=
  match c with
  | .newBuilder b _ _ _ =>
    match r with
    | .builder _ none => s.ledgerDropped b s.ledger.register
    | _ => s.ledger
  | .dropBuilder b => s.ledgerDropped b s.ledger
  | .build _ _ target =>
    match r with
    | .built _ _ => s.ledgerUnbound target false s.ledger.register
    | _ => s.ledger
  | .make m target =>
    match r with
    | .vector _ =>
      if m.isOf s target then s.ledger else s.ledgerUnbound target false (m.ledger s.ledger)
    | _ => m.ledgerInVain s.ledger
  | .close v =>
    match r with
    | .flag _ => s.ledgerUnbound v true s.ledger
    | _ => s.ledger
  | .drop v => s.ledgerUnbound v false s.ledger
  | _ => s.ledger

/-- A vector that has been made has a handle without a name. -/
theorem Weighed.making (hm : m.Weighs s id made) (h : s.Weighed (made ++ ws) t) (hs : s.Balanced [] 0) :
    ∃ u : Session, u.Weighed ws t ∧ u.Balanced [id] 0 ∧ u.ledger = m.ledger s.ledger ∧
      ∀ name, u.lastHandle name = if m.isOf s name then false else s.lastHandle name := by
  have hadds (hm : ∃ d : Deed, d.Adds id ∧ made = [d]) :
      ∃ u : Session, u.Weighed ws t ∧ u.Balanced [id] 0 ∧ u.ledger = s.ledger.register ∧
        ∀ name, u.lastHandle name = s.lastHandle name := by
    obtain ⟨d, hd, rfl⟩ := hm
    obtain ⟨u, hu, hbalanced, hshifts⟩ := h.adds hd hs
    exact ⟨u, hu, hbalanced, hshifts.ledger, hshifts.lastHandle⟩
  cases m with
  | assemble recipe =>
    obtain ⟨d, hd, rfl⟩ := hm
    obtain ⟨s₁, h₁, hs₁, hshifts₁⟩ := h.enter hs
    obtain ⟨s₂, h₂, hs₂, hshifts₂⟩ := h₁.adds hd hs₁
    obtain ⟨s₃, h₃, hs₃, hshifts₃⟩ := h₂.giveUp hs₂
    have hshifts := (hshifts₁.trans hshifts₂).trans hshifts₃
    refine ⟨s₃, h₃, hs₃, ?_, hshifts.lastHandle⟩
    rw [hshifts.ledger, hshifts₂.ledger, hshifts₁.ledger]
    rfl
  | share v =>
    obtain ⟨hid, rfl⟩ := hm
    obtain ⟨u, hu, hbalanced, hledger, hlast⟩ := h.share hs
    refine ⟨u, hu, hbalanced, hledger, fun name => ?_⟩
    simp only [hlast, Making.isOf, hid, decide_eq_true_eq]
  | ofParts | cast | concat | operate | operateScalar => exact hadds hm

/-- A vector that is not made leaves at most a builder that has been given up. -/
theorem Weighed.vain (h : s.Weighed ws t) (hs : s.Balanced [] 0) (hc : m.WeighsInVain ws) :
    t.Balanced [] 0 ∧ t.ledger = m.ledgerInVain s.ledger := by
  have hnone (hws : ws = []) : t.Balanced [] 0 ∧ t.ledger = s.ledger := by
    subst hws
    exact h.nil hs
  cases m with
  | assemble recipe =>
    simp only [Making.WeighsInVain, Making.ledgerInVain] at hc ⊢
    cases hcreate : Builder.create recipe.kind recipe.capacity false with
    | error f =>
      rw [hcreate] at hc
      exact hnone hc
    | ok b =>
      rw [hcreate] at hc
      obtain rfl : ws = [.enter, .giveUp] := hc
      obtain ⟨s₁, h₁, hs₁, hshifts₁⟩ := h.enter hs
      obtain ⟨s₂, h₂, hs₂, hshifts₂⟩ := h₁.giveUp hs₁
      obtain ⟨ht, hsame⟩ := h₂.nil hs₂
      refine ⟨ht, hsame.trans (hshifts₂.ledger.trans ?_)⟩
      rw [hshifts₁.ledger]
  | _ => exact hnone hc

/-- **The accounts after a command**, by what has weighed in it. -/
theorem Weighed.account (h : s.Weighed ws t) (hs : s.Balanced [] 0) (hc : c.Weighs s r ws) :
    t.Balanced [] 0 ∧ t.ledger = s.account c r := by
  have hnone (hws : ws = []) : t.Balanced [] 0 ∧ t.ledger = s.ledger := by
    subst hws
    exact h.nil hs
  have hset {b : String} (hws : (s.builders.find? b).isSome ∧ ws = [.setBuilder b]) :
      t.Balanced [] 0 ∧ t.ledger = s.ledger := by
    obtain ⟨hb, rfl⟩ := hws
    obtain ⟨u, hu, hbalanced, hledger, -⟩ := h.setBuilder hs hb
    exact hledger ▸ hu.nil hbalanced
  have hunbind {v : String} {released : Bool} (hws : ws = [.unbind v released]) :
      t.Balanced [] 0 ∧ t.ledger = s.ledgerUnbound v released s.ledger := by
    subst hws
    obtain ⟨u, hu, hbalanced, -, hledger⟩ := h.unbind hs
    exact hledger ▸ hu.nil hbalanced
  cases c with
  | newBuilder b kind capacity withValidity =>
    rcases r with ⟨made, _ | e⟩
    case builder.none =>
      obtain rfl : ws = [.enter, .dropBuilder b, .setBuilder b] := hc
      obtain ⟨s₁, h₁, hs₁, hshifts⟩ := h.enter hs
      obtain ⟨s₂, h₂, hs₂, hfree, hledger⟩ := h₁.dropBuilder hs₁
      obtain ⟨s₃, h₃, hs₃, hledger'⟩ := h₂.nameBuilder hs₂ hfree
      obtain ⟨ht, hsame⟩ := h₃.nil hs₃
      refine ⟨ht, hsame.trans (hledger'.trans (hledger.trans ?_))⟩
      simp only [Session.account, ledgerDropped, hshifts.ledger, hshifts.builders]
    all_goals exact hnone hc
  | append b a | closeBuilder b =>
    rcases r with ⟨after, _ | e⟩
    case builder.none => exact hset hc
    all_goals exact hnone hc
  | dropBuilder b =>
    obtain rfl : ws = [.dropBuilder b] := hc
    obtain ⟨u, hu, hbalanced, -, hledger⟩ := h.dropBuilder hs
    obtain ⟨ht, hsame⟩ := hu.nil hbalanced
    exact ⟨ht, hsame.trans hledger⟩
  | build b destination target =>
    cases r with
    | built vector after =>
      obtain ⟨hb, d, id, hd, rfl⟩ := hc
      obtain ⟨s₁, h₁, hs₁, hshifts⟩ := h.adds hd hs
      obtain ⟨s₂, h₂, hs₂, hledger, hlast⟩ := h₁.setBuilder hs₁ (by rwa [hshifts.builders])
      obtain ⟨ht, hsettled⟩ := h₂.settle hs₂
      refine ⟨ht, hsettled.trans ?_⟩
      simp only [Session.account, ledgerUnbound, hlast, hshifts.lastHandle, hledger, hshifts.ledger]
    | _ => exact hnone hc
  | make m target =>
    cases r with
    | vector info =>
      obtain ⟨id, made, hm, rfl⟩ := hc
      obtain ⟨u, hu, hbalanced, hledger, hlast⟩ := h.making hm hs
      obtain ⟨ht, hsettled⟩ := hu.settle hbalanced
      refine ⟨ht, hsettled.trans ?_⟩
      rw [ledgerUnbound, hlast, hledger]
      cases hof : m.isOf s target with
      | false => simp only [Session.account, hof, Bool.false_eq_true, if_false, ledgerUnbound]
      | true =>
        simp only [Session.account, hof, Bool.false_eq_true, if_true, if_false]
        cases m with
        | share v => rfl
        | _ => cases hof
    | _ => exact h.vain hs hc
  | close v =>
    cases r with
    | flag b => exact hunbind hc
    | _ => exact hnone hc
  | drop v => exact hunbind hc
  | newRuntime name plan =>
    obtain rfl : ws = [.newRuntime] := hc
    obtain ⟨u, hu, hbalanced, hledger⟩ := h.newRuntime hs
    obtain ⟨ht, hsame⟩ := hu.nil hbalanced
    exact ⟨ht, hsame.trans hledger⟩
  | _ => exact hnone hc

theorem Arising.balanced (hs : s.Arising) : s.Balanced [] 0 := by
  induction hs with
  | start config => exact .start config
  | step h c ih =>
    obtain ⟨ds, hruns, -, hweighs⟩ := does_step h c
    exact (hruns.weighed.account ih hweighs).1

/-- **The accounts of a session.** In any session that commands lead to, whatever fails on
its runtimes: all that has been entered in the ledger has been released, has leaked, or is
a builder or a storage that is there, and these are what is outstanding. A storage has as
many handles as it has names, and it is there as long as it has one. Each command changes
the ledger as its reply tells. -/
theorem balance_of_arising (hs : s.Arising) :
    s.ledger.registered = s.ledger.released + s.ledger.leaked + (s.builders.size + s.storages.size) ∧
      s.ledger.outstanding = s.builders.size + s.storages.size ∧
      (∀ id st, s.storages.find? id = some st →
        st.info.handles = s.vectors.values.count id ∧ 0 < st.handles) ∧
      (∀ id, (s.storages.find? id).isSome ↔ ∃ name, s.vectors.find? name = some id) ∧
      ∀ c, (s.step c).2.ledger = s.account c (s.step c).1 := by
  have hbalanced := hs.balanced
  have htotal := hbalanced.total
  refine ⟨by omega, by rw [Ledger.outstanding]; omega, fun id st hst => ?_, fun id => ?_, fun c => ?_⟩
  · have hn : s.handles? id = some st.handles := by simp [handles?, hst]
    have hcount := hbalanced.handles id
    rw [hn] at hcount
    exact ⟨hcount, hbalanced.live id _ hn⟩
  · have hthere : (s.handles? id).isSome ↔ _ := hbalanced.isSome_iff
    rw [handles?, Option.isSome_map, hbalanced.vectors.mem_values] at hthere
    simpa using hthere
  · obtain ⟨ds, hruns, -, hweighs⟩ := does_step hs c
    exact (hruns.weighed.account hbalanced hweighs).2

/-- A storage that has lost one of two handles by going away is released when the other is
closed, and leaks when that goes away too; a recipe that fails leaves a builder released,
and a cast that fails leaves nothing. -/
theorem balance_of_handles :
    let s := (Session.run { config := none } [.newBuilder "b" .string 1 false,
      .append "b" (.rows (.text "é")), .build "b" .host "v", .make (.share "v") "w", .drop "v"]).2
    s.Arising ∧ s.ledger.outstanding = s.builders.size + s.storages.size ∧
      (s.step (.close "w")).2.ledger = ⟨2, 1, 0⟩ ∧ (s.step (.drop "w")).2.ledger = ⟨2, 0, 1⟩ ∧
      (s.step (.make (.assemble (.single (.int .w32) 1 (.text "é"))) "x")).2.ledger = ⟨3, 1, 0⟩ ∧
      (s.step (.make (.cast "w" .bool) "x")).2.ledger = ⟨2, 0, 0⟩ := by
  intro s
  have hs : s.Arising := (Arising.start none).run _
  obtain ⟨-, houtstanding, -, -, hsteps⟩ := balance_of_arising hs
  refine ⟨hs, houtstanding, ?_, ?_, ?_, ?_⟩
  all_goals
    rw [hsteps]
    decide +kernel

end Session

end Columnar

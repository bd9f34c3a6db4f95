/-
Sessions that differ only in where their vectors lie.

Some runtimes, those of `N`, are near: nothing goes wrong on them any more. A place
is near if it is the host or has its data on such a runtime. Two sessions are `Twins`
if they have the same names, accounts and columns, and differ only in near places,
in what has been done on near runtimes, and in the log. Whatever changes a session
changes a twin of it to a twin: things far off in the same way, and near ones in any
way that leaves the columns as they are.
-/
import Columnar.Proofs.Agreeing

namespace Columnar

/-- That a place has nothing on runtimes but near ones. -/
def Place.Near (N : Nat → Prop) (p : Place) : Prop := ∀ d, p.deviceCopy? = some d → N d.runtime

theorem Place.near_host (N : Nat → Prop) (p : Payload) : (Place.host p).Near N := fun _ hd => by cases hd

namespace Session

/-- An orderly session on whose near runtimes nothing goes wrong, with builders whose
elements are of their kind, and with names of storages that have been. -/
structure Proper (N : Nat → Prop) (s : Session) : Prop extends s.Orderly where
  reliable : ∀ i, N i → i < s.runtimes.size ∧ (s.runtime i).Reliable
  suits : s.Suited
  bound : ∀ v id, s.vectors.find? v = some id → id ≤ s.ledger.registered

/-- That two storages, each in a session of its own, are the same but for near places. -/
structure TwinStorage (N : Nat → Prop) (s t : Session) (st u : Storage) : Prop where
  shape : u.shape = st.shape
  handles : u.handles = st.handles
  payload : t.payloadOf u = s.payloadOf st
  place : u.place = st.place ∨ st.place.Near N ∧ u.place.Near N

/-- That two sessions have the same names and accounts. -/
structure SameAccounts (s t : Session) : Prop where
  config : t.config = s.config
  ledger : t.ledger = s.ledger
  builders : t.builders = s.builders
  vectors : t.vectors = s.vectors
  runtimeNames : t.runtimeNames = s.runtimeNames

/-- That two sessions are the same but for near places and runtimes, and the log. -/
structure Twins (N : Nat → Prop) (s t : Session) : Prop extends s.SameAccounts t where
  left : s.Proper N
  right : t.Proper N
  size : t.runtimes.size = s.runtimes.size
  runtimes : ∀ i, ¬ N i → t.runtime i = s.runtime i
  storages : ∀ id, s.storages.find? id = none ∧ t.storages.find? id = none ∨
    ∃ st u, s.storages.find? id = some st ∧ t.storages.find? id = some u ∧ TwinStorage N s t st u

/-- That a session has the storages that another has, with the columns that they hold there. -/
structure Still (s s' : Session) : Prop where
  storages : s'.storages = s.storages
  columns : ∀ id, s'.column? id = s.column? id

variable {N : Nat → Prop} {s s' t t' u : Session} {id : Nat} {st : Storage}

theorem Still.refl (s : Session) : s.Still s := ⟨rfl, fun _ => rfl⟩

theorem Still.payloadOf (h : s.Still s') (hst : s.storages.find? id = some st) :
    s'.payloadOf st = s.payloadOf st :=
  payloadOf_of_column? hst (h.storages ▸ hst) (h.columns id)

theorem Alike.still (h : s.Alike s') : s.Still s' := ⟨h.storages, h.column?⟩

/-! ## Proper sessions -/

namespace Proper

theorem mono {M : Nat → Prop} (h : s.Proper N)
    (hM : ∀ i, M i → i < s.runtimes.size ∧ (s.runtime i).Reliable) : s.Proper M :=
  { h with reliable := hM }

theorem update (h : s.Proper N) (halike : s.Alike s')
    (hsuits : s'.Suited)
    (hbound : ∀ v id, s'.vectors.find? v = some id → id ≤ s'.ledger.registered) : s'.Proper N where
  toOrderly := h.toOrderly.alike halike
  reliable i hi := by
    rw [runtime, halike.runtimes]
    exact h.reliable i hi
  suits := hsuits
  bound := hbound

theorem alike (h : s.Proper N) (halike : s.Alike s') (hb : s'.builders = s.builders)
    (hv : s'.vectors = s.vectors) : s'.Proper N :=
  h.update halike (h.suits.congr hb) fun v id hid =>
    Nat.le_trans (h.bound v id (hv ▸ hid)) halike.registered

theorem setRuntime (h : s.Proper N) {i : Nat} {r : Runtime} (hi : i < s.runtimes.size)
    (hr : s.Spares i r) (hreliable : N i → r.Reliable) :
    (s.setRuntime i r).Proper N ∧ s.Still (s.setRuntime i r) := by
  obtain ⟨horderly, hcolumns⟩ := h.toOrderly.setRuntime hi hr
  have hsize : (s.setRuntime i r).runtimes.size = s.runtimes.size := (h.dense.insert hi r).2
  refine ⟨⟨horderly, fun j hj => ⟨hsize ▸ (h.reliable j hj).1, ?_⟩, h.suits, h.bound⟩, rfl, hcolumns⟩
  rw [runtime_setRuntime]
  split
  next heq => exact hreliable (heq ▸ hj)
  next => exact (h.reliable j hj).2

theorem setStorage (h : s.Proper N) (st' : Storage) (hst : s.storages.find? id = some st)
    (hcopy : st'.place.deviceCopy? = st.place.deviceCopy?)
    (hbits : st'.shape.hasValidity = (s.payloadOf st').validity.isSome) :
    (s.setStorage id st').Proper N :=
  ⟨(h.toOrderly.setStorage st' hst hcopy hbits).1, h.reliable, h.suits, h.bound⟩

theorem addStorage (h : s.Proper N) {shape : Shape} {place : Place}
    (hbits : shape.hasValidity = (s.payloadOf ⟨shape, place, 1⟩).validity.isSome)
    (hplace : s.Unshared place) : (s.addStorage shape place).2.Proper N :=
  ⟨(h.toOrderly.addStorage hbits hplace).1, h.reliable, h.suits,
    fun v id hid => Nat.le_succ_of_le (h.bound v id hid)⟩

theorem erase (h : s.Proper N) (id : Nat) : { s with storages := s.storages.erase id }.Proper N :=
  ⟨h.toOrderly.erase id, h.reliable, h.suits, h.bound⟩

theorem newRuntime (h : s.Proper N) (name : String) (plan : FaultPlan)
    (hs' : s' = { s.setRuntime s.runtimes.size { plan := plan } with
      runtimeNames := s.runtimeNames.insert name s.runtimes.size }) :
    s'.Proper N ∧ s.Still s' := by
  obtain ⟨horderly, hcolumns⟩ := h.toOrderly.newRuntime name plan hs'
  have hsize : s'.runtimes.size = s.runtimes.size + 1 := by
    rw [hs']
    exact (h.dense.insert_size ({ plan := plan } : Runtime)).2
  have hbuilders : s'.builders = s.builders := by rw [hs']; rfl
  have hvectors : s'.vectors = s.vectors := by rw [hs']; rfl
  have hledger : s'.ledger = s.ledger := by rw [hs']; rfl
  refine ⟨⟨horderly, fun i hi => ?_, h.suits.congr hbuilders, ?_⟩, by rw [hs']; rfl, hcolumns⟩
  · obtain ⟨hlt, hreliable⟩ := h.reliable i hi
    refine ⟨hsize ▸ Nat.lt_succ_of_lt hlt, ?_⟩
    rw [hs', runtime_newRuntime, if_neg (Nat.ne_of_lt hlt)]
    exact hreliable
  · rw [hvectors, hledger]
    exact h.bound

end Proper

/-! ## Twins -/

theorem SameAccounts.refl (s : Session) : s.SameAccounts s := ⟨rfl, rfl, rfl, rfl, rfl⟩

theorem TwinStorage.refl (N : Nat → Prop) (s : Session) (st : Storage) : TwinStorage N s s st st :=
  ⟨rfl, rfl, rfl, .inl rfl⟩

theorem TwinStorage.congr {st u : Storage} (h : TwinStorage N s t st u) (hs : s'.runtimes = s.runtimes)
    (ht : t'.runtimes = t.runtimes) : TwinStorage N s' t' st u :=
  ⟨h.shape, h.handles, by rw [payloadOf_congr ht, payloadOf_congr hs, h.payload], h.place⟩

namespace Twins

theorem refl (h : s.Proper N) : s.Twins N s where
  toSameAccounts := .refl s
  left := h
  right := h
  size := rfl
  runtimes _ _ := rfl
  storages id := by
    cases hst : s.storages.find? id with
    | none => exact .inl ⟨rfl, rfl⟩
    | some st => exact .inr ⟨st, st, rfl, rfl, .refl N s st⟩

theorem symm (h : s.Twins N t) : t.Twins N s where
  config := h.config.symm
  ledger := h.ledger.symm
  builders := h.builders.symm
  vectors := h.vectors.symm
  runtimeNames := h.runtimeNames.symm
  left := h.right
  right := h.left
  size := h.size.symm
  runtimes i hi := (h.runtimes i hi).symm
  storages id := by
    rcases h.storages id with ⟨hs, ht⟩ | ⟨st, u, hst, hu, hshape, hhandles, hpayload, hplace⟩
    · exact .inl ⟨ht, hs⟩
    · exact .inr ⟨u, st, hu, hst, hshape.symm, hhandles.symm, hpayload.symm,
        hplace.imp Eq.symm And.symm⟩

theorem trans (h : s.Twins N t) (h' : t.Twins N u) : s.Twins N u where
  config := h'.config.trans h.config
  ledger := h'.ledger.trans h.ledger
  builders := h'.builders.trans h.builders
  vectors := h'.vectors.trans h.vectors
  runtimeNames := h'.runtimeNames.trans h.runtimeNames
  left := h.left
  right := h'.right
  size := h'.size.trans h.size
  runtimes i hi := (h'.runtimes i hi).trans (h.runtimes i hi)
  storages id := by
    rcases h.storages id with ⟨hs, ht⟩ | ⟨a, b, ha, hb, htwin⟩
    · rcases h'.storages id with ⟨-, hu⟩ | ⟨b, -, hb, -⟩
      · exact .inl ⟨hs, hu⟩
      · rw [ht] at hb
        cases hb
    · rcases h'.storages id with ⟨hb', -⟩ | ⟨b', c, hb', hc, htwin'⟩
      · rw [hb] at hb'
        cases hb'
      · obtain rfl : b = b' := Option.some.inj (hb.symm.trans hb')
        refine .inr ⟨a, c, ha, hc, htwin'.shape.trans htwin.shape, htwin'.handles.trans htwin.handles,
          htwin'.payload.trans htwin.payload, ?_⟩
        rcases htwin.place with heq | ⟨hnear, hnear'⟩ <;> rcases htwin'.place with heq' | ⟨hnear₂, hnear₂'⟩
        · exact .inl (heq'.trans heq)
        · exact .inr ⟨heq ▸ hnear₂, hnear₂'⟩
        · exact .inr ⟨hnear, heq'.symm ▸ hnear'⟩
        · exact .inr ⟨hnear, hnear₂'⟩

/-- Sessions that keep the storages of twins are twins, if they are alike in all else. -/
theorem of_still (h : s.Twins N t) (hs : s'.Proper N) (ht : t'.Proper N) (hstill : s.Still s')
    (hstill' : t.Still t') (haccounts : s'.SameAccounts t') (hsize : t'.runtimes.size = s'.runtimes.size)
    (hruntimes : ∀ i, ¬ N i → t'.runtime i = s'.runtime i) : s'.Twins N t' where
  toSameAccounts := haccounts
  left := hs
  right := ht
  size := hsize
  runtimes := hruntimes
  storages id := by
    rw [hstill.storages, hstill'.storages]
    rcases h.storages id with hnone | ⟨st, u, hst, hu, htwin⟩
    · exact .inl hnone
    · refine .inr ⟨st, u, hst, hu, htwin.shape, htwin.handles, ?_, htwin.place⟩
      rw [hstill.payloadOf hst, hstill'.payloadOf hu, htwin.payload]

/-- **Names and accounts** that change in the same way. -/
theorem update (h : s.Twins N t) (hs : s.Alike s') (ht : t.Alike t') (haccounts : s'.SameAccounts t')
    (hsuits : s'.Suited)
    (hbound : ∀ v id, s'.vectors.find? v = some id → id ≤ s'.ledger.registered) : s'.Twins N t' := by
  refine h.of_still (h.left.update hs hsuits hbound) (h.right.update ht ?_ ?_) hs.still ht.still
    haccounts ?_ fun i hi => ?_
  · exact hsuits.congr haccounts.builders
  · rwa [haccounts.vectors, haccounts.ledger]
  · rw [hs.runtimes, ht.runtimes, h.size]
  · rw [runtime, ht.runtimes, runtime, hs.runtimes]
    exact h.runtimes i hi

theorem alike (h : s.Twins N t) (hs : s.Alike s') (ht : t.Alike t') (haccounts : s'.SameAccounts t')
    (hb : s'.builders = s.builders) (hv : s'.vectors = s.vectors) : s'.Twins N t' :=
  h.update hs ht haccounts (h.left.suits.congr hb) fun v id hid =>
    Nat.le_trans (h.left.bound v id (hv ▸ hid)) hs.registered

/-- **The log** does not matter. -/
theorem log (h : s.Twins N t) (e : Event) : s.Twins N (t.log e) :=
  h.alike ⟨rfl, rfl, rfl, Nat.le_refl _⟩ (alike_log t e)
    ⟨h.config, h.ledger, h.builders, h.vectors, h.runtimeNames⟩ rfl rfl

theorem logs (h : s.Twins N t) (e e' : Event) : (s.log e).Twins N (t.log e') :=
  ((h.log e').symm.log e).symm

/-! ### Runtimes -/

/-- **A near runtime** of one of the sessions. -/
theorem setRuntime_near (h : s.Twins N t) {i : Nat} {r : Runtime} (hi : N i) (hr : t.Spares i r)
    (hreliable : r.Reliable) : s.Twins N (t.setRuntime i r) := by
  have hlt := (h.right.reliable i hi).1
  obtain ⟨hproper, hstill⟩ := h.right.setRuntime hlt hr fun _ => hreliable
  refine h.of_still h.left hproper (.refl s) hstill
    ⟨h.config, h.ledger, h.builders, h.vectors, h.runtimeNames⟩ ?_ fun j hj => ?_
  · exact (h.right.dense.insert hlt r).2.trans h.size
  · have hne : j ≠ i := by
      rintro rfl
      exact hj hi
    rw [runtime_setRuntime, if_neg hne]
    exact h.runtimes j hj

/-- **Another runtime**, in both sessions. -/
theorem setRuntime_far (h : s.Twins N t) {i : Nat} {r : Runtime} (hi : ¬ N i)
    (hlt : i < s.runtimes.size) (hs : s.Spares i r) (ht : t.Spares i r) :
    (s.setRuntime i r).Twins N (t.setRuntime i r) := by
  obtain ⟨hproper, hstill⟩ := h.left.setRuntime hlt hs fun hnear => absurd hnear hi
  obtain ⟨hproper', hstill'⟩ := h.right.setRuntime (h.size ▸ hlt) ht fun hnear => absurd hnear hi
  refine h.of_still hproper hproper' hstill hstill'
    ⟨h.config, h.ledger, h.builders, h.vectors, h.runtimeNames⟩ ?_ fun j hj => ?_
  · exact ((h.right.dense.insert (h.size ▸ hlt) r).2.trans h.size).trans
      (h.left.dense.insert hlt r).2.symm
  · rw [runtime_setRuntime, runtime_setRuntime, h.runtimes j hj]

theorem newRuntime (h : s.Twins N t) (name : String) (plan : FaultPlan)
    (hs' : s' = { s.setRuntime s.runtimes.size { plan := plan } with
      runtimeNames := s.runtimeNames.insert name s.runtimes.size })
    (ht' : t' = { t.setRuntime t.runtimes.size { plan := plan } with
      runtimeNames := t.runtimeNames.insert name t.runtimes.size }) : s'.Twins N t' := by
  obtain ⟨hproper, hstill⟩ := h.left.newRuntime name plan hs'
  obtain ⟨hproper', hstill'⟩ := h.right.newRuntime name plan ht'
  refine h.of_still hproper hproper' hstill hstill' ?_ ?_ fun j hj => ?_
  · subst hs' ht'
    exact ⟨h.config, h.ledger, h.builders, h.vectors, by rw [h.runtimeNames, h.size]⟩
  · subst hs' ht'
    exact (h.right.dense.insert_size _).2.trans
      ((congrArg (· + 1) h.size).trans (h.left.dense.insert_size _).2.symm)
  · rw [hs', ht', runtime_newRuntime, runtime_newRuntime, h.size, h.runtimes j hj]

/-! ### Storages -/

/-- Sessions that keep the runtimes of twins, and all their storages but one, are twins
if they are alike in that storage, and in names and accounts. -/
theorem of_storage (h : s.Twins N t) (hs : s'.Proper N) (ht : t'.Proper N) (haccounts : s'.SameAccounts t')
    (hruntimes : s'.runtimes = s.runtimes) (hruntimes' : t'.runtimes = t.runtimes) (id : Nat)
    (hrest : ∀ j, j ≠ id → s'.storages.find? j = s.storages.find? j)
    (hrest' : ∀ j, j ≠ id → t'.storages.find? j = t.storages.find? j)
    (hchanged : s'.storages.find? id = none ∧ t'.storages.find? id = none ∨
      ∃ st u, s'.storages.find? id = some st ∧ t'.storages.find? id = some u ∧ TwinStorage N s t st u) :
    s'.Twins N t' where
  toSameAccounts := haccounts
  left := hs
  right := ht
  size := by rw [hruntimes, hruntimes', h.size]
  runtimes i hi := by
    rw [runtime, hruntimes', runtime, hruntimes]
    exact h.runtimes i hi
  storages j := by
    have hj : s'.storages.find? j = none ∧ t'.storages.find? j = none ∨
        ∃ st u, s'.storages.find? j = some st ∧ t'.storages.find? j = some u ∧ TwinStorage N s t st u := by
      by_cases hj : j = id
      · exact hj ▸ hchanged
      · rw [hrest j hj, hrest' j hj]
        exact h.storages j
    rcases hj with hnone | ⟨st, u, hst, hu, htwin⟩
    · exact .inl hnone
    · exact .inr ⟨st, u, hst, hu, htwin.congr hruntimes hruntimes'⟩

/-- **A storage** that changes in both sessions. -/
theorem setStorage (h : s.Twins N t) {st st' u u' : Storage} (hst : s.storages.find? id = some st)
    (hu : t.storages.find? id = some u) (hcopy : st'.place.deviceCopy? = st.place.deviceCopy?)
    (hcopy' : u'.place.deviceCopy? = u.place.deviceCopy?)
    (hbits : st'.shape.hasValidity = (s.payloadOf st').validity.isSome)
    (htwin : TwinStorage N s t st' u') : (s.setStorage id st').Twins N (t.setStorage id u') := by
  refine h.of_storage (h.left.setStorage st' hst hcopy hbits) (h.right.setStorage u' hu hcopy' ?_)
    ⟨h.config, h.ledger, h.builders, h.vectors, h.runtimeNames⟩ rfl rfl id
    (fun j hj => Table.find?_insert_of_ne _ _ hj) (fun j hj => Table.find?_insert_of_ne _ _ hj) (.inr ?_)
  · rw [htwin.shape, htwin.payload, hbits]
  · exact ⟨st', u', Table.find?_insert_self _ _ _, Table.find?_insert_self _ _ _, htwin⟩

/-- **A storage** that changes in one of the sessions, not in its content. -/
theorem setStorage_near (h : s.Twins N t) {st u : Storage} (u' : Storage) (hst : s.storages.find? id = some st)
    (hu : t.storages.find? id = some u) (hcopy : u'.place.deviceCopy? = u.place.deviceCopy?)
    (htwin : TwinStorage N s t st u') : s.Twins N (t.setStorage id u') := by
  refine h.of_storage h.left (h.right.setStorage u' hu hcopy ?_)
    ⟨h.config, h.ledger, h.builders, h.vectors, h.runtimeNames⟩ rfl rfl id (fun _ _ => rfl)
    (fun j hj => Table.find?_insert_of_ne _ _ hj) (.inr ?_)
  · rw [htwin.shape, htwin.payload]
    exact h.left.shaped id st hst
  · exact ⟨st, u', hst, Table.find?_insert_self _ _ _, htwin⟩

/-- **A new storage**, in both sessions. -/
theorem addStorage (h : s.Twins N t) {shape : Shape} {place place' : Place}
    (hbits : shape.hasValidity = (s.payloadOf ⟨shape, place, 1⟩).validity.isSome)
    (hs : s.Unshared place) (ht : t.Unshared place')
    (htwin : TwinStorage N s t ⟨shape, place, 1⟩ ⟨shape, place', 1⟩) :
    (s.addStorage shape place).2.Twins N (t.addStorage shape place').2 := by
  refine h.of_storage (h.left.addStorage hbits hs) (h.right.addStorage ?_ ht)
    ⟨h.config, congrArg Ledger.register h.ledger, h.builders, h.vectors, h.runtimeNames⟩ rfl rfl
    (s.ledger.registered + 1) (fun j hj => ?_) (fun j hj => ?_) (.inr ?_)
  · rw [htwin.payload, hbits]
  · rw [find?_addStorage, if_neg hj]
  · rw [find?_addStorage, h.ledger, if_neg hj]
  · refine ⟨⟨shape, place, 1⟩, ⟨shape, place', 1⟩, ?_, ?_, htwin⟩
    · rw [find?_addStorage, if_pos rfl]
    · rw [find?_addStorage, h.ledger, if_pos rfl]

/-- A new storage on the host. -/
theorem addColumn (h : s.Twins N t) (c : Column) :
    (s.addStorage c.shape (.host c.payload)).2.Twins N (t.addStorage c.shape (.host c.payload)).2 :=
  h.addStorage rfl (unshared_host s _) (unshared_host t _) ⟨rfl, rfl, rfl, .inl rfl⟩

theorem erase (h : s.Twins N t) (id : Nat) :
    ({ s with storages := s.storages.erase id } : Session).Twins N
      { t with storages := t.storages.erase id } :=
  h.of_storage (h.left.erase id) (h.right.erase id)
    ⟨h.config, h.ledger, h.builders, h.vectors, h.runtimeNames⟩ rfl rfl id
    (fun _ hj => Table.find?_erase_of_ne _ hj) (fun _ hj => Table.find?_erase_of_ne _ hj)
    (.inl ⟨Table.find?_erase_self _ _, Table.find?_erase_self _ _⟩)

/-! ### Giving back -/

/-- What one of the sessions gives back of a near place. -/
theorem freePlace_near (h : s.Twins N t) {place : Place} (ht : t.Unshared place)
    (hnear : place.Near N) : s.Twins N (t.freePlace place) := by
  unfold Session.freePlace
  cases hd : place.deviceCopy? with
  | none => exact h
  | some d =>
    have hi := hnear d hd
    exact h.setRuntime_near hi (h.right.spares_freeAll ht hd) ((h.right.reliable _ hi).2.freeAll _)

theorem freePlace (h : s.Twins N t) {place place' : Place} (hs : s.Unshared place)
    (ht : t.Unshared place') (hplace : place' = place ∨ place.Near N ∧ place'.Near N) :
    (s.freePlace place).Twins N (t.freePlace place') := by
  have hboth (hnear : place.Near N) (hnear' : place'.Near N) :
      (s.freePlace place).Twins N (t.freePlace place') :=
    ((h.freePlace_near ht hnear').symm.freePlace_near hs hnear).symm
  rcases hplace with rfl | ⟨hnear, hnear'⟩
  · cases hd : place'.deviceCopy? with
    | none =>
      simp only [Session.freePlace, hd]
      exact h
    | some d =>
      by_cases hi : N d.runtime
      · have hnear : place'.Near N := fun d' hd' => by
          rw [hd] at hd'
          cases hd'
          exact hi
        exact hboth hnear hnear
      · have hs' := h.left.spares_freeAll hs hd
        have ht' := h.right.spares_freeAll ht hd
        simp only [Session.freePlace, hd]
        rw [h.runtimes _ hi] at ht' ⊢
        exact h.setRuntime_far hi (hs.copies d hd).1 hs' ht'
  · exact hboth hnear hnear'

theorem reclaim (h : s.Twins N t) (holder : Holder) (released : Bool) :
    (s.reclaim holder released).Twins N (t.reclaim holder released) := by
  have hs := alike_reclaim s holder released
  have ht := alike_reclaim t holder released
  refine h.alike hs ht ?_ (builders_reclaim s holder released) (vectors_reclaim s holder released)
  constructor
  · rw [config_reclaim, config_reclaim, settledConfig, h.config, settledConfig]
  · rw [ledger_reclaim, ledger_reclaim, h.ledger]
  · rw [builders_reclaim, builders_reclaim, h.builders]
  · rw [vectors_reclaim, vectors_reclaim, h.vectors]
  · rw [ht.runtimeNames, hs.runtimeNames, h.runtimeNames]

/-- **One handle less** of a storage, in both sessions. -/
theorem releaseHandle (h : s.Twins N t) (id : Nat) (released : Bool) :
    (s.releaseHandle id released).Twins N (t.releaseHandle id released) := by
  unfold Session.releaseHandle
  rcases h.storages id with ⟨hs, ht⟩ | ⟨st, u, hst, hu, htwin⟩
  · simp only [hs, ht]
    exact h
  · simp only [hst, hu, htwin.handles]
    split
    · refine Twins.reclaim ?_ .vector released
      exact (h.erase id).freePlace (h.left.unshared_of_erase hst) (h.right.unshared_of_erase hu)
        htwin.place
    · refine h.setStorage hst hu rfl rfl (h.left.shaped id st hst) ?_
      exact ⟨htwin.shape, rfl, htwin.payload, htwin.place⟩

/-! ### Names -/

theorem unbind (h : s.Twins N t) (name : String) (released : Bool) :
    (s.unbind name released).Twins N (t.unbind name released) := by
  unfold Session.unbind
  rw [h.vectors]
  cases s.vectors.find? name with
  | none => exact h
  | some id =>
    refine Twins.releaseHandle ?_ id released
    refine h.update ⟨rfl, rfl, rfl, Nat.le_refl _⟩ ⟨rfl, rfl, rfl, Nat.le_refl _⟩ ?_ h.left.suits ?_
    · exact ⟨h.config, h.ledger, h.builders, rfl, h.runtimeNames⟩
    · exact fun v j hj => h.left.bound v j (Table.find?_erase_eq_some.mp hj).2

theorem setBuilder (h : s.Twins N t) (name : String) {b : Builder} (hb : b.elements.Suits b.kind) :
    (s.setBuilder name b).Twins N (t.setBuilder name b) := by
  refine h.update ⟨rfl, rfl, rfl, Nat.le_refl _⟩ ⟨rfl, rfl, rfl, Nat.le_refl _⟩ ?_
    (h.left.suits.setBuilder name hb) h.left.bound
  exact ⟨h.config, h.ledger, congrArg (·.insert name b) h.builders, h.vectors, h.runtimeNames⟩

theorem dropBuilder (h : s.Twins N t) (name : String) :
    (s.dropBuilder name).Twins N (t.dropBuilder name) := by
  unfold Session.dropBuilder
  rw [h.builders]
  cases s.builders.find? name with
  | none => exact h
  | some b =>
    refine Twins.reclaim ?_ .builder _
    refine h.update ⟨rfl, rfl, rfl, Nat.le_refl _⟩ ⟨rfl, rfl, rfl, Nat.le_refl _⟩ ?_ ?_ h.left.bound
    · exact ⟨h.config, h.ledger, rfl, h.vectors, h.runtimeNames⟩
    · exact fun other b' hfind => h.left.suits other b' (Table.find?_erase_eq_some.mp hfind).2

end Twins

theorem registered_releaseHandle (s : Session) (id : Nat) (released : Bool) :
    s.ledger.registered ≤ (s.releaseHandle id released).ledger.registered := by
  unfold Session.releaseHandle
  split
  · exact Nat.le_refl _
  · simp only
    split
    · refine Nat.le_trans (Nat.le_of_eq ?_) (alike_reclaim _ _ _).registered
      unfold Session.freePlace
      split <;> rfl
    · exact Nat.le_refl _

theorem registered_unbind (s : Session) (name : String) (released : Bool) :
    s.ledger.registered ≤ (s.unbind name released).ledger.registered := by
  unfold Session.unbind
  split
  next => exact Nat.le_refl _
  next id _ => exact registered_releaseHandle { s with vectors := s.vectors.erase name } id released

/-- **A name** for a storage that has been entered. -/
theorem Twins.bind (h : s.Twins N t) (name : String) (hid : id ≤ s.ledger.registered) :
    (s.bind name id).Twins N (t.bind name id) := by
  have h' := h.unbind name false
  refine h'.update ⟨rfl, rfl, rfl, Nat.le_refl _⟩ ⟨rfl, rfl, rfl, Nat.le_refl _⟩ ?_ h'.left.suits ?_
  · exact ⟨h'.config, h'.ledger, h'.builders, congrArg (·.insert name id) h'.vectors, h'.runtimeNames⟩
  · intro v j hj
    rcases Table.of_find?_insert hj with ⟨-, rfl⟩ | hj
    · exact Nat.le_trans hid (registered_unbind s name false)
    · exact h'.left.bound v j hj

end Session

end Columnar

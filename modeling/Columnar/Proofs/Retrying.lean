/-
Builds that fail, and are tried again.

A transfer to a runtime that fails part of the way gives back what it has sent, so the
runtime differs from what it was only by attempts and handles that have been used up
(`Runtime.Resumes`). What was taken out of the builder for it is put back
(`Action.careful_buildOnDevice`). A build that fails changes nothing else (`Session.Retried`), and
additions to builders know nothing of it: a script of additions with failed builds in
between is answered as the additions alone, and leaves the same builders
(`Session.Retried.run`).
-/
import Columnar.Proofs.Destinations

namespace Columnar

namespace Runtime

/-- That a runtime differs from another only by uploads that were tried in vain. -/
structure Resumes (r r' : Runtime) : Prop where
  plan : r'.plan = r.plan
  downloadAttempts : r'.downloadAttempts = r.downloadAttempts
  downloads : r'.device.downloads = r.device.downloads
  allocations : r'.device.allocations = r.device.allocations

variable {r r' r₁ r₂ : Runtime}

theorem Resumes.refl (r : Runtime) : r.Resumes r := ⟨rfl, rfl, rfl, rfl⟩

theorem Resumes.trans (h : r.Resumes r₁) (h' : r₁.Resumes r₂) : r.Resumes r₂ where
  plan := h'.plan.trans h.plan
  downloadAttempts := h'.downloadAttempts.trans h.downloadAttempts
  downloads := h'.downloads.trans h.downloads
  allocations := h'.allocations.trans h.allocations

theorem resumes_of_upload_error {bytes : Bytes} {e : DeviceError} (h : r.upload bytes = (.error e, r')) :
    r.Resumes r' := by
  unfold upload at h
  simp only at h
  split at h
  · obtain ⟨-, rfl⟩ := Prod.mk.inj h
    exact ⟨rfl, rfl, rfl, rfl⟩
  · cases h

/-- What has been sent can be given back: its handle was not taken before. -/
theorem Resumes.free_of_upload {bytes : Bytes} {a : Allocation} (hr : r.Bounded)
    (hup : r.upload bytes = (.ok a, r₁)) (h : r₁.Resumes r₂) : r.Resumes (r₂.free a) := by
  unfold upload at hup
  simp only at hup
  split at hup
  · cases hup
  · obtain ⟨ha, rfl⟩ := Prod.mk.inj hup
    cases ha
    refine ⟨h.plan, h.downloadAttempts, h.downloads, ?_⟩
    have hnone : r.device.allocations.find? (r.device.uploads + 1) = none := Table.find?_succ_of_le hr
    show r₂.device.allocations.erase (r.device.uploads + 1) = r.device.allocations
    rw [h.allocations]
    exact (Table.erase_insert _ _ _).trans (Table.erase_eq_self hnone)

/-- **Uploads that fail** leave nothing behind, wherever they fail. -/
theorem resumes_of_uploadAll_error {buffers : List Bytes} {e : DeviceError} (hr : r.Bounded)
    (h : r.uploadAll buffers = (.error e, r')) : r.Resumes r' := by
  induction buffers generalizing r r' e with
  | nil => cases h
  | cons bytes rest ih =>
    rw [uploadAll] at h
    split at h
    next hup =>
      obtain ⟨-, rfl⟩ := Prod.mk.inj h
      exact resumes_of_upload_error hup
    next a r₁ hup =>
      split at h
      next hrest =>
        obtain ⟨-, rfl⟩ := Prod.mk.inj h
        exact (ih ((of_upload hup).1.bounded hr) hrest).free_of_upload hr hup
      next => cases h

/-- Downloads know nothing of uploads that were tried in vain. -/
theorem Resumes.download (h : r.Resumes r') (a : Allocation) :
    (r'.download a).1 = (r.download a).1 ∧ (r.download a).2.Resumes (r'.download a).2 := by
  obtain ⟨plan, ⟨allocations, uploads, downloads⟩, uploadAttempts, downloadAttempts⟩ := r
  obtain ⟨plan', ⟨allocations', uploads', downloads'⟩, uploadAttempts', downloadAttempts'⟩ := r'
  obtain ⟨hplan, hattempts, hdownloads, hallocations⟩ := h
  simp only at hplan hattempts hdownloads hallocations
  subst hplan hattempts hdownloads hallocations
  simp only [Runtime.download, Device.download_eq]
  by_cases hfails : downloadAttempts' + 1 ∈ plan'.failingDownloads
  · simp only [if_pos hfails]
    exact ⟨trivial, rfl, rfl, rfl, rfl⟩
  · simp only [if_neg hfails]
    cases allocations'.find? a.handle with
    | none => exact ⟨rfl, rfl, rfl, rfl, rfl⟩
    | some bytes =>
      by_cases hlen : bytes.length = a.length
      · simp only [if_pos hlen]
        exact ⟨trivial, rfl, rfl, rfl, rfl⟩
      · simp only [if_neg hlen]
        exact ⟨trivial, rfl, rfl, rfl, rfl⟩

theorem Resumes.downloadAll (h : r.Resumes r') (allocations : List Allocation) :
    (r'.downloadAll allocations).1 = (r.downloadAll allocations).1 ∧
      (r.downloadAll allocations).2.Resumes (r'.downloadAll allocations).2 := by
  induction allocations generalizing r r' with
  | nil => exact ⟨rfl, h⟩
  | cons a rest ih =>
    obtain ⟨hsame, hresumes⟩ := h.download a
    rcases hx : r.download a with ⟨x, r₁⟩
    rcases hy : r'.download a with ⟨y, r₁'⟩
    rw [hx, hy] at hsame hresumes
    obtain rfl : y = x := hsame
    obtain ⟨hrest, hresumes'⟩ := ih hresumes
    rcases hx' : r₁.downloadAll rest with ⟨x, r₂⟩
    rcases hy' : r₁'.downloadAll rest with ⟨y', r₂'⟩
    rw [hx', hy'] at hrest hresumes'
    obtain rfl : y' = x := hrest
    simp only [Runtime.downloadAll, hx, hy]
    cases y with
    | error e => exact ⟨rfl, hresumes⟩
    | ok bytes =>
      simp only [hx', hy']
      cases y' with
      | error e => exact ⟨rfl, hresumes'⟩
      | ok all => exact ⟨rfl, hresumes'⟩

end Runtime

open Session

namespace Session

/-- That a session differs from another only by uploads that were tried in vain. -/
structure Retried (s t : Session) : Prop where
  rest : t = { s with runtimes := t.runtimes }
  runtimes : ∀ i, (s.runtime i).Resumes (t.runtime i)

namespace Retried

variable {s t u : Session}

theorem refl (s : Session) : s.Retried s := ⟨rfl, fun _ => .refl _⟩

theorem trans (h : s.Retried t) (h' : t.Retried u) : s.Retried u where
  rest := by
    have hrest := h'.rest
    rw [h.rest] at hrest
    exact hrest
  runtimes i := (h.runtimes i).trans (h'.runtimes i)

theorem builders (h : s.Retried t) : t.builders = s.builders := by rw [h.rest]

/-- One of the runtimes is tried in vain. -/
theorem setRuntime_right (h : s.Retried t) {i : Nat} {r : Runtime} (hr : (t.runtime i).Resumes r) :
    s.Retried (t.setRuntime i r) where
  rest := by
    rw [h.rest]
    rfl
  runtimes j := by
    rw [runtime_setRuntime]
    split
    next heq => exact heq ▸ (h.runtimes i).trans hr
    next => exact h.runtimes j

theorem setRuntime (h : s.Retried t) {r r' : Runtime} (hr : r.Resumes r') (i : Nat) :
    (s.setRuntime i r).Retried (t.setRuntime i r') where
  rest := by
    rw [h.rest]
    rfl
  runtimes j := by
    rw [runtime_setRuntime, runtime_setRuntime]
    split
    · exact hr
    · exact h.runtimes j

theorem log (h : s.Retried t) (e : Event) : (s.log e).Retried (t.log e) where
  rest := by
    rw [h.rest]
    rfl
  runtimes := h.runtimes

theorem setStorage (h : s.Retried t) (id : Nat) (st : Storage) :
    (s.setStorage id st).Retried (t.setStorage id st) where
  rest := by
    rw [h.rest]
    rfl
  runtimes := h.runtimes

theorem setBuilder (h : s.Retried t) (name : String) (b : Builder) :
    (s.setBuilder name b).Retried (t.setBuilder name b) where
  rest := by
    rw [h.rest]
    rfl
  runtimes := h.runtimes

theorem storage? (h : s.Retried t) (v : String) : t.storage? v = s.storage? v := by
  rw [h.rest]
  rfl

end Retried

end Session

/-! ## Additions after failed builds -/

namespace Action

variable {s t : Session}

/-- That a session has been retried, and has builders whose elements are of their kind. -/
def RetriedSuited (s t : Session) : Prop := s.Retried t ∧ s.Suited

theorem same_fetch_of_retried (h : s.Retried t) (hsuits : s.Suited) (id : Nat) (st : Storage) (d : DeviceCopy) :
    Same RetriedSuited (fetch id st d) s t := by
  refine Agree.bindGet ?_
  obtain ⟨hsame, hresumes⟩ := (h.runtimes d.runtime).downloadAll d.allocations
  rcases hx : (s.runtime d.runtime).downloadAll d.allocations with ⟨fetched, r⟩
  rcases hy : (t.runtime d.runtime).downloadAll d.allocations with ⟨fetched', r'⟩
  rw [hx, hy] at hsame hresumes
  obtain rfl : fetched' = fetched := hsame
  have hset := h.setRuntime hresumes d.runtime
  refine Agree.bindModify ?_
  cases fetched' with
  | error e => exact Agree.throw ⟨hset, hsuits⟩
  | ok buffers => exact Agree.bindModify (Agree.pure ⟨hset.setStorage id _, hsuits⟩ rfl)

/-- Uploads that were tried in vain are nothing to reads and additions. -/
theorem likeness_retried : Likeness RetriedSuited where
  shape := by
    rintro s t ⟨h, hsuits⟩ v
    simp only [shape, storage, bind_assoc]
    refine Agree.bindGet ?_
    rw [h.storage?]
    exact Agree.bindNamed ⟨h, hsuits⟩ fun p _ => Agree.pure ⟨h, hsuits⟩ rfl
  materialize := by
    rintro s t ⟨h, hsuits⟩ v
    simp only [materialize, storage, bind_assoc]
    refine Agree.bindGet ?_
    rw [h.storage?]
    refine Agree.bindNamed ⟨h, hsuits⟩ ?_
    rintro ⟨id, st⟩ -
    cases hplace : st.place with
    | host p => exact Agree.pure ⟨h, hsuits⟩ rfl
    | both p d => exact Agree.pure ⟨h, hsuits⟩ rfl
    | device d => exact Agree.bindModify (same_fetch_of_retried (h.log _) hsuits id st d)
  builders h := h.1.builders
  suits h := h.2
  setBuilder h name hb := ⟨h.1.setBuilder name _, h.2.setBuilder name hb⟩

/-! ## Failed builds -/

/-- A build on a runtime that stops has been refused, by the builder or by the device,
and was tried in vain. -/
theorem retried_of_buildOnDevice_error (h : s.Orderly) {b : Builder} {i : Nat} {stop : Stop}
    (hx : (buildOnDevice b i).exec s = (.error stop, t)) :
    s.Retried t ∧ ∃ e, stop = .fault (.refused e) ∧ (b.phase = .opened → ∃ d, e = .device d) := by
  by_cases hopen : b.phase = .opened
  · rcases hup : (s.runtime i).uploadAll b.payload.buffers with ⟨e | allocations, r⟩
    · cases (Builder.exec_buildOnDevice_error hopen hup).symm.trans hx
      exact ⟨(Retried.refl s).setRuntime_right (Runtime.resumes_of_uploadAll_error (h.bounded i) hup),
        _, rfl, fun _ => ⟨e, rfl⟩⟩
    · cases (Builder.exec_buildOnDevice hopen hup).symm.trans hx
  · obtain ⟨e, he⟩ := Builder.exec_buildOnDevice_of_ne hopen i s
    cases he.symm.trans hx
    exact ⟨.refl s, e, rfl, fun h => absurd h hopen⟩

end Action

/-- Whether a command adds rows to a builder. -/
def Command.adds : Command → Bool
  | append _ _ => true
  | _ => false

/-- Whether a command tries to build on a runtime. -/
def Command.tries : Command → Bool
  | build _ (.runtime _) _ => true
  | _ => false

/-- Whether a reply tells of a vector that has been built. -/
def Reply.isBuilt : Reply → Bool
  | built _ _ => true
  | _ => false

theorem Reply.isBuilt_eq_true {r : Reply} : r.isBuilt = true ↔ ∃ info b, r = .built info b := by
  cases r <;> simp [isBuilt]

namespace Session

open Columnar.Action

variable {s t : Session}

/-- **A build on a runtime** is answered with the vector, or with what the device
refused, and then it was tried in vain. -/
theorem step_build (h : s.Proper fun _ => False) {name r : String} {b : Builder} {i : Nat}
    (hb : s.builders.find? name = some b) (hi : s.runtimeNames.find? r = some i) (target : String) :
    (∃ info t, s.step (.build name (.runtime r) target) = (.built info b.finish, t)) ∨
      ∃ e t, s.step (.build name (.runtime r) target) = (.builder b (some e), t) ∧ s.Retried t ∧
        (b.phase = .opened → ∃ d, e = .device d) := by
  have hexec : (Action.reply (.build name (.runtime r) target)).exec s =
      (buildBy (Work.buildOnDevice i) name target).exec s := by
    simp only [reply, buildTo, Action.runtime, exec_bind, exec_get, hi, exec_named]
  have hlt := h.names r i hi
  rcases hx : (buildOnDevice b i).exec s with ⟨stop | p, s'⟩
  · obtain ⟨hretried, e, rfl, he⟩ := retried_of_buildOnDevice_error h.toOrderly hx
    refine .inr ⟨e, s', ?_, hretried, he⟩
    rw [step_eq_exec, hexec, exec_buildBy_error (actsAs_buildOnDevice i) target hb hx]
  · obtain ⟨-, place, s₁, hplaces⟩ := placing_buildOnDevice h hlt b p s' (h.suits name b hb) hx
    obtain ⟨t, -, ht, -⟩ := hplaces.exec_buildBy (actsAs_buildOnDevice i) target hb
    refine .inl ⟨⟨b.shape, place.residency, 1⟩, t, ?_⟩
    rw [step_eq_exec, hexec, ht]

/-- **A build that fails** is no fault, and leaves all but tried uploads as it was. -/
theorem step_of_tries (h : s.Proper fun _ => False) {c : Command} (hc : c.tries = true)
    (hvain : (s.step c).1.isBuilt = false) :
    s.Retried (s.step c).2 ∧ (s.step c).1 ≠ .stopped (.fault .outOfBounds) := by
  cases c with
  | build name destination target =>
    cases destination with
    | runtime r =>
      cases hi : s.runtimeNames.find? r with
      | none =>
        have hstep : s.step (.build name (.runtime r) target) = (.stopped (.noSuchObject r), s) := by
          simp only [step_eq_exec, reply, buildTo, Action.runtime, exec_bind, exec_get, hi, exec_named]
        rw [hstep]
        exact ⟨.refl s, by simp⟩
      | some i =>
        cases hb : s.builders.find? name with
        | none =>
          have hstep : s.step (.build name (.runtime r) target) = (.stopped (.noSuchObject name), s) := by
            simp only [step_eq_exec, reply, buildTo, buildBy_eq (actsAs_buildOnDevice i), Action.runtime,
              exec_bind, exec_get, hi, exec_named, exec_builder_none hb]
          rw [hstep]
          exact ⟨.refl s, by simp⟩
        | some b =>
          rcases step_build h hb hi target with ⟨info, t, hstep⟩ | ⟨e, t, hstep, hretried, -⟩
          · rw [hstep] at hvain
            cases hvain
          · rw [hstep]
            exact ⟨hretried, by simp⟩
    | configured => cases hc
    | host => cases hc
  | _ => cases hc

/-- **An addition** is answered as if no build had been tried. -/
theorem Retried.step_of_adds (h : s.Retried t) (hs : s.Suited) {c : Command} (hc : c.adds = true) :
    (t.step c).1 = (s.step c).1 ∧ (s.step c).2.Retried (t.step c).2 ∧ (s.step c).2.Suited := by
  cases c with
  | append name a =>
    rw [step_eq_exec, step_eq_exec]
    cases likeness_retried.append ⟨h, hs⟩ name a with
    | stops hx hy h' =>
      simp only [reply, hx, hy]
      exact ⟨trivial, h'⟩
    | answers hx hy h' hab =>
      subst hab
      simp only [reply, hx, hy]
      exact ⟨trivial, h'⟩
  | _ => cases hc

/-- **Additions with failed builds in between** are answered as the additions alone,
and leave a session that differs from theirs only by uploads tried in vain. -/
theorem Retried.run (h : s.Retried t) (hs : s.Suited) (ht : t.Arising) {script : List Command}
    (hscript : ∀ c ∈ script, c.adds = true ∨ c.tries = true)
    (hvain : ∀ reply ∈ (t.run script).1, reply.isBuilt = false) :
    (s.run (script.filter Command.adds)).1 =
        ((script.zip (t.run script).1).filter (·.1.adds)).map (·.2) ∧
      (s.run (script.filter Command.adds)).2.Retried (t.run script).2 := by
  induction script generalizing s t with
  | nil => exact ⟨rfl, h⟩
  | cons c rest ih =>
    have hrest : ∀ d ∈ rest, d.adds = true ∨ d.tries = true := fun d hd => hscript d (by simp [hd])
    by_cases hadds : c.adds = true
    · -- Both carry the addition out, and both end here if it reaches too far.
      obtain ⟨hreply, hretried, hsuited⟩ := h.step_of_adds hs hadds
      rw [List.filter_cons_of_pos hadds]
      by_cases hfault : (s.step c).1 = .stopped (.fault .outOfBounds)
      · rw [run_cons_of_fault hfault, run_cons_of_fault (hreply.trans hfault)]
        exact ⟨by simp [hadds], hretried⟩
      · have hfault' : (t.step c).1 ≠ .stopped (.fault .outOfBounds) := fun h => hfault (hreply ▸ h)
        rw [run_cons_of_ne hfault'] at hvain ⊢
        rw [run_cons_of_ne hfault]
        obtain ⟨hreplies, hend⟩ := ih hretried hsuited (ht.step c) hrest fun reply hmem =>
          hvain reply (by simp [hmem])
        exact ⟨by simp [hadds, hreply, hreplies], hend⟩
    · have htries : c.tries = true := (hscript c (by simp)).resolve_left hadds
      have hbuilt : (t.step c).1.isBuilt = false := by
        by_cases hfault : (t.step c).1 = .stopped (.fault .outOfBounds)
        · rw [hfault]
          rfl
        · rw [run_cons_of_ne hfault] at hvain
          exact hvain _ (by simp)
      obtain ⟨hretried, hfault⟩ := step_of_tries ht.proper htries hbuilt
      rw [List.filter_cons_of_neg hadds]
      rw [run_cons_of_ne hfault] at hvain ⊢
      obtain ⟨hreplies, hend⟩ := ih (h.trans hretried) hs (ht.step c) hrest fun reply hmem =>
        hvain reply (by simp [hmem])
      exact ⟨by simp [hadds, hreplies], hend⟩

/-- **A failed build changes nothing and can be tried again.** In any session that
commands lead to, whatever fails on its runtimes: a build of an open builder on a
runtime gives the vector, or is answered with the device's error and the same builder,
and then all accounts, names, builders and storages are as they were, and on each
runtime the same allocations are live. However many such builds are tried in between
additions to builders, each addition is answered as if there were none; and what is
built after them, in whatever way, is what would have been built without them. -/
theorem attempts_of_arising (hs : s.Arising) :
    (∀ name r target b i, s.builders.find? name = some b → b.phase = .opened →
      s.runtimeNames.find? r = some i →
      (∃ info t, s.step (.build name (.runtime r) target) = (.built info b.finish, t)) ∨
      ∃ e t, s.step (.build name (.runtime r) target) = (.builder b (some (.device e)), t) ∧
        t = { s with runtimes := t.runtimes } ∧
        ∀ j, (t.runtime j).device.allocations = (s.runtime j).device.allocations ∧
          (t.runtime j).device.bytesInUse = (s.runtime j).device.bytesInUse) ∧
    ∀ script : List Command, (∀ c ∈ script, c.adds = true ∨ c.tries = true) →
      (∀ reply ∈ (s.run script).1, reply.isBuilt = false) →
      let t := (s.run script).2
      let u := (s.run (script.filter Command.adds)).2
      (s.run (script.filter Command.adds)).1 =
          ((script.zip (s.run script).1).filter (·.1.adds)).map (·.2) ∧
        t = { u with runtimes := t.runtimes } ∧
        (∀ j, (t.runtime j).device.allocations = (u.runtime j).device.allocations) ∧
        ∀ name target destination destination' info info' after after' t' u',
          t.step (.build name destination target) = (.built info after, t') →
          u.step (.build name destination' target) = (.built info' after', u') →
          info.shape = info'.shape ∧ after = after' ∧
            ∃ c, t'.shown? target = some c ∧ u'.shown? target = some c := by
  refine ⟨fun name r target b i hb hopen hi => ?_, fun script hscript hvain => ?_⟩
  · rcases step_build hs.proper hb hi target with hbuilt | ⟨e, t, hstep, hretried, he⟩
    · exact .inl hbuilt
    · obtain ⟨d, rfl⟩ := he hopen
      refine .inr ⟨d, t, hstep, hretried.rest, fun j => ?_⟩
      have hallocations := (hretried.runtimes j).allocations
      exact ⟨hallocations, by rw [Device.bytesInUse, hallocations, Device.bytesInUse]⟩
  · intro t u
    obtain ⟨hreplies, hretried⟩ := (Retried.refl s).run hs.proper.suits hs hscript hvain
    refine ⟨hreplies, hretried.rest, fun j => (hretried.runtimes j).allocations, ?_⟩
    intro name target destination destination' info info' after after' t' u' ht hu
    obtain ⟨b, hb, -, hshape, rfl, hshown⟩ := shown?_of_built (hs.run script).proper ht
    obtain ⟨b', hb', -, hshape', rfl, hshown'⟩ := shown?_of_built (hs.run _).proper hu
    rw [hretried.builders, hb'] at hb
    cases hb
    exact ⟨hshape.trans hshape'.symm, rfl, _, hshown, hshown'⟩

/-- Two builds of strings fail, the first with nothing sent and the second with all but
the validity bits, and a third does not. -/
theorem attempts_of_texts :
    let s := (Session.run { config := none } [.newBuilder "b" .string 2 true,
      .newRuntime "r" { failingUploads := [1, 4] }]).2
    let attempt : Command := .build "b" (.runtime "r") "v"
    let script := [attempt, .append "b" (.rows (.text "é")), attempt]
    let t := ((s.run script).2.step attempt).2
    let u := ((s.run (script.filter Command.adds)).2.step (.build "b" .host "v")).2
    s.Arising ∧ (∀ reply ∈ (s.run script).1, reply.isBuilt = false) ∧
      ∃ c, t.shown? "v" = some c ∧ u.shown? "v" = some c := by
  intro s attempt script t u
  have hs : s.Arising := (Arising.start none).run _
  have hscript : ∀ c ∈ script, c.adds = true ∨ c.tries = true := by
    intro c hc
    simp only [script, List.mem_cons, List.not_mem_nil, or_false] at hc
    rcases hc with rfl | rfl | rfl
    · exact .inr rfl
    · exact .inl rfl
    · exact .inr rfl
  have hvain : ∀ reply ∈ (s.run script).1, reply.isBuilt = false := by decide +kernel
  have hbuilt : ((s.run script).2.step attempt).1.isBuilt = true := by decide +kernel
  have hbuilt' : ((s.run (script.filter Command.adds)).2.step (.build "b" .host "v")).1.isBuilt = true := by
    decide +kernel
  obtain ⟨info, after, ht⟩ := Reply.isBuilt_eq_true.mp hbuilt
  obtain ⟨info', after', hu⟩ := Reply.isBuilt_eq_true.mp hbuilt'
  obtain ⟨-, -, -, hlater⟩ := (attempts_of_arising hs).2 script hscript hvain
  exact ⟨hs, hvain, (hlater _ _ _ _ _ _ _ _ t u (Prod.ext ht rfl) (Prod.ext hu rfl)).2.2⟩

end Session

end Columnar

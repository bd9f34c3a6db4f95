/-
Vectors that come out the same however they are put together.

The columns of parts that can be joined (`Session.Joinable`) are one packed column when they
are joined, and its rows are all that it depends on. So it does not matter whether the parts
are joined at once or in groups (`concat_grouped`), by a concatenation or in a builder
(`concat_built`), and whether they are cast before or after (`concat_cast`): what the scripts
make is the same down to the bytes of null rows and the padding of the validity bits.
-/
import Columnar.Proofs.Leading
import Columnar.Proofs.Packing

namespace Columnar

open Columnar.Action

namespace Session

variable {s : Session} {k t : Kind} {cs : List Column} {vs : List String} {w : String}

/-- That there are vectors under these names, with columns of one kind that can be joined: storage
for all their rows can be set aside, and offsets reach the end of their text. -/
structure Joinable (s : Session) (vs : List String) (k : Kind) (cs : List Column) : Prop where
  nonempty : vs ≠ []
  shown : vs.map s.shown? = cs.map some
  kind : ∀ c ∈ cs, c.kind = k
  storage : Elements.reserved k (total (cs.map Column.rows)) ≤ maxSize
  text : k = .string → total (cs.map fun c => c.payload.elements.data.length) ≤ maxTextBytes

namespace Joinable

theorem parts (h : s.Joinable vs k cs) (hs : s.Reachable .unlimited) : ∃ held, Column.Parts k cs held := by
  refine Column.parts_of_wellFormed (fun c hc => ⟨?_, h.kind c hc⟩) h.storage h.text
  have hmem : some c ∈ vs.map s.shown? := h.shown ▸ List.mem_map_of_mem hc
  obtain ⟨v, -, hv⟩ := List.mem_map.mp hmem
  exact (hs.sound invariant_wellFormed).shown hv

theorem columns_ne_nil (h : s.Joinable vs k cs) : cs ≠ [] := by
  rintro rfl
  exact h.nonempty (by simpa using h.shown)

theorem filterMap_shown? (h : s.Joinable vs k cs) : vs.filterMap s.shown? = cs := by
  have hmap : vs.filterMap s.shown? = (vs.map s.shown?).filterMap id := by
    rw [List.filterMap_map]
    rfl
  rw [hmap, h.shown, List.filterMap_map]
  simp

theorem isSome (h : s.Joinable vs k cs) : ∀ v ∈ vs, (s.shown? v).isSome := by
  intro v hv
  have hmem : s.shown? v ∈ cs.map some := h.shown ▸ List.mem_map_of_mem hv
  obtain ⟨c, -, hc⟩ := List.mem_map.mp hmem
  rw [← hc]
  rfl

end Joinable

theorem map_shown?_of_isSome (h : ∀ v ∈ vs, (s.shown? v).isSome) :
    vs.map s.shown? = (vs.filterMap s.shown?).map some := by
  induction vs with
  | nil => rfl
  | cons v vs ih =>
    obtain ⟨hv, hvs⟩ := List.forall_mem_cons.mp h
    obtain ⟨c, hc⟩ := Option.isSome_iff_exists.mp hv
    rw [List.map_cons, List.filterMap_cons_some hc, List.map_cons, ih hvs, hc]

/-- A session with two truth values on the host, one of them null, and a third on a device. -/
def hostAndDevice : Session := (Session.run { config := none } [
  .make (.ofParts .bool 2 [1, 0] (some [0xFD])) "a",
  .newRuntime "r" Runtime.faultless.plan,
  .newBuilder "x" .bool 1 false,
  .append "x" (.rows (.value .bool true)),
  .build "x" (.runtime "r") "b"]).2

theorem reachable_hostAndDevice : hostAndDevice.Reachable .unlimited := by
  refine (Reachable.start none).run ?_
  simp [Command.Within, faithful_faultless]

/-- The column under the name `a`. -/
def hostPart : Column := ⟨.bool, 2, 1, ⟨.fixed [1, 0], some ⟨0xFD :: List.replicate 63 0xFF⟩⟩⟩

/-- The column under the name `b`. -/
def devicePart : Column := ⟨.bool, 1, 0, ⟨.fixed [1], none⟩⟩

set_option maxRecDepth 4000 in
theorem joinable_hostAndDevice :
    hostAndDevice.Joinable ["a", "b", "a"] .bool [hostPart, devicePart, hostPart] := by
  refine ⟨by simp, rfl, ?_, by decide, by simp⟩
  simp [hostPart, devicePart]

theorem leads_concat (hs : s.Reachable .unlimited) (hcs : vs.map s.shown? = cs.map some) {c : Column}
    (hc : Column.concat cs = .ok c) (hw : s.vectors.find? w = none) :
    s.Leads [.make (.concat vs) w] fun t => t.Displays w c :=
  (leads_make hs (gives_concat hs hcs hc) hw).mono fun _ h => h.2

/-- Groups of vectors, each of them joined. -/
theorem leads_concatAll (hs : s.Reachable .unlimited) {gs : List (List String × String)}
    (hshown : ∀ g ∈ gs, ∀ v ∈ g.1, (s.shown? v).isSome) {wholes : List Column}
    (hwholes : gs.map (fun g => Column.concat (g.1.filterMap s.shown?)) = wholes.map .ok)
    (hfree : ∀ x ∈ gs.map Prod.snd, s.vectors.find? x = none) (hdistinct : (gs.map Prod.snd).Nodup) :
    s.Leads (gs.map fun g => .make (.concat g.1) g.2) (s.Names (gs.map Prod.snd) wholes) := by
  refine leads_makeAll (m := fun g => .concat g.1) hs hwholes (fun g hg c hc t ht => ?_)
    (fun g hg => hfree _ (List.mem_map_of_mem hg)) hdistinct
  exact gives_concat ht.reachable (ht.map_shown? (map_shown?_of_isSome (hshown g hg))) hc

/-- Vectors that can be joined, each of them cast. -/
theorem leads_castAll (hs : s.Reachable .unlimited) {ps : List (String × String)}
    (hparts : s.Joinable (ps.map Prod.fst) k cs) {rule : CastRule} (hrule : k.castRule? t = some rule)
    (hroom : Elements.reserved t (total (cs.map Column.rows)) ≤ maxSize) {ds : List Column}
    (hds : cs.map (·.cast t) = ds.map .ok) (hfree : ∀ x ∈ ps.map Prod.snd, s.vectors.find? x = none)
    (hdistinct : (ps.map Prod.snd).Nodup) :
    s.Leads (ps.map fun p => .make (.cast p.1 t) p.2) (s.Names (ps.map Prod.snd) ds) := by
  have hcasts : (ps.map fun p => Outcome.ofOption (s.shown? p.1) >>= (·.cast t)) = ds.map .ok := by
    have hmap := congrArg (List.map fun c => Outcome.ofOption c >>= (·.cast t)) hparts.shown
    rw [List.map_map, List.map_map, List.map_map] at hmap
    exact hmap.trans hds
  refine leads_makeAll (m := fun p => .cast p.1 t) hs hcasts (fun p hp d hd u hu => ?_)
    (fun p hp => hfree _ (List.mem_map_of_mem hp)) hdistinct
  have hmem := List.mem_map_of_mem (f := Prod.fst) hp
  obtain ⟨part, hpart⟩ := Option.isSome_iff_exists.mp (hparts.isSome _ hmem)
  have hcs : part ∈ cs := hparts.filterMap_shown? ▸ List.mem_filterMap.mpr ⟨p.1, hmem, hpart⟩
  rw [hpart] at hd
  obtain rfl := hparts.kind part hcs
  exact gives_cast hu.reachable (hu.shown _ _ hpart) hrule hd
    (.inr (Nat.le_trans (Elements.reserved_mono t (Column.rows_le_total hcs)) hroom))

/-! ## Every reachable session -/

/-- **Concatenation is independent of grouping.** In every session that commands lead to, joining
vectors at once, and joining the vectors that groups of them are joined to, makes the same
vector, unless a device fails to bring some data: the one that has the columns of all parts,
joined. Storage for all the rows together is enough for those of each group. -/
theorem concat_grouped (hs : s.Reachable .unlimited) (gs : List (List String × String))
    (hparts : s.Joinable (gs.flatMap Prod.fst) k cs) (hgroups : ∀ g ∈ gs, g.1 ≠ [])
    (hfree : ∀ x ∈ w :: gs.map Prod.snd, s.vectors.find? x = none)
    (hdistinct : (w :: gs.map Prod.snd).Nodup) :
    let joined := s.run [.make (.concat (gs.flatMap Prod.fst)) w]
    let grouped := s.run
      (gs.map (fun g => .make (.concat g.1) g.2) ++ [.make (.concat (gs.map Prod.snd)) w])
    ∃ c, Column.concat cs = .ok c ∧ (Undisturbed joined.1 → joined.2.Displays w c) ∧
      (Undisturbed grouped.1 → grouped.2.Displays w c) := by
  obtain ⟨hw, hfree⟩ := List.forall_mem_cons.mp hfree
  obtain ⟨hnew, hdistinct⟩ := List.nodup_cons.mp hdistinct
  have hshown : ∀ g ∈ gs, ∀ v ∈ g.1, (s.shown? v).isSome := fun g hg v hv =>
    hparts.isSome v (List.mem_flatMap.mpr ⟨g, hg, hv⟩)
  let columns (g : List String × String) : List Column := g.1.filterMap s.shown?
  have hflatten : (gs.map columns).flatten = cs := by
    rw [← hparts.filterMap_shown?, List.filterMap_flatMap, List.flatMap_def]
  have hne : gs ≠ [] := by
    rintro rfl
    exact hparts.nonempty rfl
  have hcolumns : ∀ group ∈ gs.map columns, group ≠ [] := by
    intro group hgroup hnil
    obtain ⟨g, hg, rfl⟩ := List.mem_map.mp hgroup
    have hmap := map_shown?_of_isSome (hshown g hg)
    rw [show g.1.filterMap s.shown? = [] from hnil] at hmap
    exact hgroups g hg (by simpa using hmap)
  obtain ⟨held, hheld⟩ := hparts.parts hs
  obtain ⟨wholes, c, hwholes, hwhole, hc⟩ :=
    Column.Parts.concat_groups (hflatten ▸ hheld) (by simpa using hne) hcolumns
  rw [hflatten] at hc
  rw [List.map_map] at hwholes
  have hmade := leads_concatAll hs hshown hwholes hfree hdistinct
  exact ⟨c, hc, (leads_concat hs hparts.shown hc hw).run,
    (hmade.append fun t ht => leads_concat ht.reachable ht.named hwhole (ht.free w hnew hw)).run⟩

set_option maxRecDepth 4000 in
/-- The first two of three parts joined first. -/
theorem concat_grouped_pair :
    let c : Column := ⟨.bool, 5, 2, ⟨.fixed [1, 0, 1, 1, 0], some ⟨0xED :: List.replicate 63 0xFF⟩⟩⟩
    let joined := hostAndDevice.run [.make (.concat ["a", "b", "a"]) "w"]
    let grouped := hostAndDevice.run [.make (.concat ["a", "b"]) "g", .make (.concat ["a"]) "h",
      .make (.concat ["g", "h"]) "w"]
    joined.2.Displays "w" c ∧ grouped.2.Displays "w" c := by
  intro c joined grouped
  obtain ⟨d, -, hjoined, hgrouped⟩ :=
    concat_grouped (w := "w") reachable_hostAndDevice [(["a", "b"], "g"), (["a"], "h")]
      joinable_hostAndDevice (by simp) (by decide +kernel) (by decide)
  have hdisplays : joined.2.Displays "w" d := hjoined (undisturbed_of_all (by decide +kernel))
  have hshown : joined.2.shown? "w" = some c := by decide +kernel
  obtain rfl : d = c := Option.some.inj (hdisplays.shown.symm.trans hshown)
  exact ⟨hdisplays, hgrouped (undisturbed_of_all (by decide +kernel))⟩

/-- **Concatenation and building agree.** In every session that commands lead to, joining vectors,
and appending them in order to a new builder with room for just their rows and building it on the
host, makes the same vector, unless a device fails to bring some data. -/
theorem concat_built (hs : s.Reachable .unlimited) (hparts : s.Joinable vs k cs) (b : String)
    (hw : s.vectors.find? w = none) :
    let joined := s.run [.make (.concat vs) w]
    let built := s.run ([.newBuilder b k (total (cs.map Column.rows)) false] ++
      vs.map (fun v => .append b (.vector v)) ++ [.build b .host w])
    ∃ c, Column.concat cs = .ok c ∧ (Undisturbed joined.1 → joined.2.Displays w c) ∧
      (Undisturbed built.1 → built.2.Displays w c) := by
  obtain ⟨held, hheld⟩ := hparts.parts hs
  have hcreate : Builder.create k (total (cs.map Column.rows)) false =
      .ok (.new k (total (cs.map Column.rows))) := by
    simp only [Builder.create, Elements.requireStorage, if_pos hparts.storage]
    rfl
  obtain ⟨full, happend, hopen, hc⟩ :=
    hheld.column_appendAll hparts.columns_ne_nil (hheld.holds.length ▸ hcreate)
  rw [hheld.holds.length] at happend
  have hbuilt : s.Leads ([.newBuilder b k (total (cs.map Column.rows)) false] ++
      vs.map (fun v => .append b (.vector v)) ++ [.build b .host w])
      fun t => t.Displays w full.column := by
    refine Leads.append (P := s.Fills b full) ?_ fun t ht => ?_
    · refine (leads_newBuilder hs hcreate).append fun t ht => ?_
      exact (leads_appendAll ht.reachable ht.builder (ht.map_shown? hparts.shown) happend).mono
        fun u hu => ht.trans hu
    · exact leads_build ht.reachable ht.builder hopen (ht.vectors ▸ hw)
  exact ⟨full.column, hc, (leads_concat hs hparts.shown hc hw).run, hbuilt.run⟩

set_option maxRecDepth 4000 in
/-- The three parts in a builder. -/
theorem concat_built_five :
    let c : Column := ⟨.bool, 5, 2, ⟨.fixed [1, 0, 1, 1, 0], some ⟨0xED :: List.replicate 63 0xFF⟩⟩⟩
    let joined := hostAndDevice.run [.make (.concat ["a", "b", "a"]) "w"]
    let built := hostAndDevice.run [.newBuilder "y" .bool 5 false, .append "y" (.vector "a"),
      .append "y" (.vector "b"), .append "y" (.vector "a"), .build "y" .host "w"]
    joined.2.Displays "w" c ∧ built.2.Displays "w" c := by
  intro c joined built
  obtain ⟨d, -, hjoined, hbuilt⟩ :=
    concat_built (w := "w") reachable_hostAndDevice joinable_hostAndDevice "y" (by decide +kernel)
  have hdisplays : joined.2.Displays "w" d := hjoined (undisturbed_of_all (by decide +kernel))
  have hshown : joined.2.shown? "w" = some c := by decide +kernel
  obtain rfl : d = c := Option.some.inj (hdisplays.shown.symm.trans hshown)
  exact ⟨hdisplays, hbuilt (undisturbed_of_all (by decide +kernel))⟩

/-- **Casts distribute over concatenation.** In every session that commands lead to, casting
what vectors are joined to, and joining what each of them is cast to, makes the same vector,
unless a device fails to bring some data; all that is asked for is that there is a rule for the
cast, and that storage can be set aside for as many rows of the one kind as of the other. -/
theorem concat_cast (hs : s.Reachable .unlimited) (ps : List (String × String))
    (hparts : s.Joinable (ps.map Prod.fst) k cs) {rule : CastRule} (hrule : k.castRule? t = some rule)
    (hroom : Elements.reserved t (total (cs.map Column.rows)) ≤ maxSize) {u : String}
    (hfree : ∀ x ∈ u :: w :: ps.map Prod.snd, s.vectors.find? x = none)
    (hdistinct : (u :: w :: ps.map Prod.snd).Nodup) :
    let whole := s.run [.make (.concat (ps.map Prod.fst)) u, .make (.cast u t) w]
    let parts := s.run
      (ps.map (fun p => .make (.cast p.1 t) p.2) ++ [.make (.concat (ps.map Prod.snd)) w])
    ∃ d c, Column.concat cs = .ok d ∧ d.cast t = .ok c ∧
      (Undisturbed whole.1 → whole.2.Displays w c) ∧ (Undisturbed parts.1 → parts.2.Displays w c) := by
  obtain ⟨hu, hw, hfree⟩ : s.vectors.find? u = none ∧ s.vectors.find? w = none ∧
      ∀ x ∈ ps.map Prod.snd, s.vectors.find? x = none := by
    simpa only [List.forall_mem_cons] using hfree
  obtain ⟨hu_new, hdistinct⟩ := List.nodup_cons.mp hdistinct
  obtain ⟨hw_new, hdistinct⟩ := List.nodup_cons.mp hdistinct
  have hne : w ≠ u := fun h => hu_new (by simp [h])
  obtain ⟨held, hheld⟩ := hparts.parts hs
  obtain ⟨d, ds, c, hd, hcast, hds, hc⟩ := hheld.concat_casts hparts.columns_ne_nil hrule
    (hheld.holds.length ▸ hroom)
  have hpacked := hheld.packed hparts.columns_ne_nil hd
  have hroom_whole : Elements.reserved t d.rows ≤ maxSize := Column.rows_concat hd ▸ hroom
  have hwhole : s.Leads ([.make (.concat (ps.map Prod.fst)) u] ++ [.make (.cast u t) w])
      fun v => v.Displays w c := by
    refine (leads_make hs (gives_concat hs hparts.shown hd) hu).append fun v hv => ?_
    obtain ⟨hnames, hdisplays⟩ := hv
    refine (leads_make hnames.reachable ?_ (hnames.free w (by simpa using hne) hw)).mono fun _ h => h.2
    exact gives_cast hnames.reachable hdisplays.shown (hpacked.kind ▸ hrule) hcast (.inr hroom_whole)
  have hcasts := leads_castAll hs hparts hrule hroom hds hfree hdistinct
  exact ⟨d, c, hd, hcast, hwhole.run,
    (hcasts.append fun v hv => leads_concat hv.reachable hv.named hc (hv.free w hw_new hw)).run⟩

set_option maxRecDepth 4000 in
/-- The three parts as integers of twice the width. -/
theorem concat_cast_w16 :
    let c : Column := ⟨.int .w16, 5, 2,
      ⟨.fixed [1, 0, 0, 0, 1, 0, 1, 0, 0, 0], some ⟨0xED :: List.replicate 63 0xFF⟩⟩⟩
    let whole := hostAndDevice.run
      [.make (.concat ["a", "b", "a"]) "u", .make (.cast "u" (.int .w16)) "w"]
    let parts := hostAndDevice.run [.make (.cast "a" (.int .w16)) "p", .make (.cast "b" (.int .w16)) "q",
      .make (.cast "a" (.int .w16)) "r", .make (.concat ["p", "q", "r"]) "w"]
    whole.2.Displays "w" c ∧ parts.2.Displays "w" c := by
  intro c whole parts
  obtain ⟨-, d, -, -, hwhole, hparts⟩ :=
    concat_cast (u := "u") (w := "w") (t := .int .w16) reachable_hostAndDevice
      [("a", "p"), ("b", "q"), ("a", "r")] joinable_hostAndDevice rfl (by decide)
      (by decide +kernel) (by decide)
  have hdisplays : whole.2.Displays "w" d := hwhole (undisturbed_of_all (by decide +kernel))
  have hshown : whole.2.shown? "w" = some c := by decide +kernel
  obtain rfl : d = c := Option.some.inj (hdisplays.shown.symm.trans hshown)
  exact ⟨hdisplays, hparts (undisturbed_of_all (by decide +kernel))⟩

end Session

end Columnar

/-
Operations distribute over concatenation.

What an operation makes of a row is a matter of the two rows alone (`Column.operate_rows`), so
the results for pairs of columns have, joined, the rows of the results for the columns joined
(`Column.Parts.operates`). They agree in validity bits as well: on either side there are some
exactly if some operand has any or some result is null, though one side sees that pair by pair.
Both are packed, so they are one column (`Session.concat_operate`).
-/
import Columnar.Proofs.Evaluating
import Columnar.Proofs.Grouping

namespace Columnar

open Columnar.Action

/-! ## Pairs of columns -/

namespace Column.Parts

variable {k k' : Kind} {ls rs : List Column} {as bs : List Row} {op : Operation} {out : Kind}

/-- **The results for pairs of columns** have the rows of all pairs. -/
theorem operates {f g form : Primitive} (hls : Parts k ls as) (hrs : Parts k' rs bs)
    (hrows : ls.map rows = rs.map rows) (hk : k.isNumeric ∨ k.isTemporal)
    (hk' : k'.isNumeric ∨ k'.isTemporal) (hf : k.primitive? = some f) (hg : k'.primitive? = some g)
    (hform : out.primitive? = some form) (hout : op.requireOutput out = .ok ())
    (hroom : Elements.reserved out (total (ls.map rows)) ≤ maxSize) :
    ∃ ds, List.zipWith (operate op out) ls rs = ds.map .ok ∧
      Parts out ds (List.zipWith (Row.operate op form f g) as bs) ∧
      anyBits ds = ((anyBits ls || anyBits rs) ||
        (List.zipWith (Row.operate op form f g) as bs).any Row.null) := by
  have hstorage : Elements.reserved out (List.zipWith (Row.operate op form f g) as bs).length ≤ maxSize := by
    rw [List.length_zipWith, hls.holds.length]
    exact Nat.le_trans (Elements.reserved_mono out (Nat.min_le_left _ _)) hroom
  have hrooms : ∀ l ∈ ls, Elements.reserved out l.rows ≤ maxSize := fun l hl =>
    Nat.le_trans (Elements.reserved_mono out (rows_le_total hl)) hroom
  suffices ∃ ds, List.zipWith (operate op out) ls rs = ds.map .ok ∧
      AllHold ds (List.zipWith (Row.operate op form f g) as bs) ∧
      (∀ d ∈ ds, d.nulls = d.nullFlags.count true ∧ d.kind = out) ∧
      anyBits ds = ((anyBits ls || anyBits rs) ||
        (List.zipWith (Row.operate op form f g) as bs).any Row.null) by
    obtain ⟨ds, hds, hholds, hmem, hbits⟩ := this
    exact ⟨ds, hds, ⟨hholds, fun d hd => (hmem d hd).1, fun d hd => (hmem d hd).2, hstorage,
      Elements.fits_of_fixed hform _⟩, hbits⟩
  clear hstorage hroom
  obtain ⟨hholds, -, hleft, -, -⟩ := hls
  obtain ⟨hholds', -, hright, -, -⟩ := hrs
  induction hholds generalizing rs bs with
  | nil =>
    obtain rfl : rs = [] := by simpa using hrows.symm
    cases hholds'
    exact ⟨[], rfl, .nil, by simp, rfl⟩
  | @cons l ls a as hl _ ih =>
    cases hholds' with
    | nil => cases hrows
    | @cons r rs b bs hr hrs =>
      obtain ⟨hlr, hrows⟩ := List.cons_eq_cons.mp hrows
      obtain ⟨rfl, hleft⟩ := List.forall_mem_cons.mp hleft
      obtain ⟨rfl, hright⟩ := List.forall_mem_cons.mp hright
      obtain ⟨hroom, hrooms⟩ := List.forall_mem_cons.mp hrooms
      obtain ⟨ds, hds, hholds, hmem, hbits⟩ := ih hrows hrooms hleft hrs hright
      obtain ⟨d, hd, hpacked⟩ := operate_rows hl hr hf hg hform
        (Operation.requireColumns_ok hk hk' hout hlr) hroom
      have hlength : a.length = b.length := hl.length.trans (hlr.trans hr.length.symm)
      rw [List.zipWith_append hlength]
      refine ⟨d :: ds, by rw [List.zipWith_cons_cons, List.map_cons, hd, hds],
        .cons hpacked.toHolds hholds,
        List.forall_mem_cons.mpr ⟨⟨hpacked.wellFormed.nulls, hpacked.kind⟩, hmem⟩, ?_⟩
      -- A pair has bits for its own reasons, and the order of the reasons does not matter.
      simp only [anyBits, List.any_cons, List.any_append, hpacked.bits] at hbits ⊢
      rw [hbits]
      ac_rfl

/-- **Operating on parts first** changes nothing. -/
theorem concat_operates (hls : Parts k ls as) (hrs : Parts k' rs bs) (hne : ls ≠ [])
    (hrows : ls.map rows = rs.map rows) (hk : k.isNumeric ∨ k.isTemporal)
    (hk' : k'.isNumeric ∨ k'.isTemporal) (hout : op.requireOutput out = .ok ())
    (hroom : Elements.reserved out (total (ls.map rows)) ≤ maxSize) :
    ∃ l r c ds, Column.concat ls = .ok l ∧ Column.concat rs = .ok r ∧
      op.requireColumns out l.shape r.shape = .ok () ∧ operate op out l r = .ok c ∧
      List.zipWith (operate op out) ls rs = ds.map .ok ∧ Column.concat ds = .ok c := by
  obtain ⟨f, hf⟩ := Kind.primitive_of_arithmetic hk
  obtain ⟨g, hg⟩ := Kind.primitive_of_arithmetic hk'
  obtain ⟨form, hform⟩ := Operation.primitive_of_requireOutput hout
  have hne' : rs ≠ [] := by
    rintro rfl
    exact hne (by simpa using hrows)
  obtain ⟨l, hl, hl_packed⟩ := hls.concat hne
  obtain ⟨r, hr, hr_packed⟩ := hrs.concat hne'
  have hl_rows : l.rows = total (ls.map rows) := hl_packed.length.symm.trans hls.holds.length
  have hr_rows : r.rows = total (rs.map rows) := hr_packed.length.symm.trans hrs.holds.length
  have hchecks : op.requireColumns out l.shape r.shape = .ok () :=
    Operation.requireColumns_ok (hl_packed.kind ▸ hk) (hr_packed.kind ▸ hk') hout
      (by rw [hl_rows, hr_rows, hrows])
  obtain ⟨c, hc, hc_packed⟩ := operate_rows hl_packed.toHolds hr_packed.toHolds (hl_packed.kind ▸ hf)
    (hr_packed.kind ▸ hg) hform hchecks (hl_rows ▸ hroom)
  obtain ⟨ds, hds, hparts, hbits⟩ := hls.operates hrs hrows hk hk' hf hg hform hout hroom
  have hds_ne : ds ≠ [] := by
    rintro rfl
    rcases List.zipWith_eq_nil_iff.mp hds with h | h
    · exact hne h
    · exact hne' h
  obtain ⟨d, hd, hd_packed⟩ := hparts.concat hds_ne
  rw [hl_packed.bits, hr_packed.bits, ← hbits] at hc_packed
  exact ⟨l, r, c, ds, hl, hr, hchecks, hc, hds, hc_packed.eq hd_packed ▸ hd⟩

end Column.Parts

/-! ## Every reachable session -/

namespace Session

variable {s : Session} {k k' : Kind} {ls rs : List Column} {op : Operation} {out : Kind}

/-- Two operands of an operation, with a name for its results. -/
structure Pair where
  left : String
  right : String
  result : String

/-- Partners have columns of the two kinds with as many rows. -/
theorem Joinable.partners {ps : List Pair} (hleft : s.Joinable (ps.map Pair.left) k ls)
    (hright : s.Joinable (ps.map Pair.right) k' rs) (hrows : ls.map Column.rows = rs.map Column.rows)
    {p : Pair} (hp : p ∈ ps) :
    ∃ a b, s.shown? p.left = some a ∧ s.shown? p.right = some b ∧ a.kind = k ∧ b.kind = k' ∧
      a.rows = b.rows := by
  have hl := List.mem_map_of_mem (f := Pair.left) hp
  have hr := List.mem_map_of_mem (f := Pair.right) hp
  obtain ⟨a, ha⟩ := Option.isSome_iff_exists.mp (hleft.isSome _ hl)
  obtain ⟨b, hb⟩ := Option.isSome_iff_exists.mp (hright.isSome _ hr)
  have ha_mem : a ∈ ls := hleft.filterMap_shown? ▸ List.mem_filterMap.mpr ⟨p.left, hl, ha⟩
  have hb_mem : b ∈ rs := hright.filterMap_shown? ▸ List.mem_filterMap.mpr ⟨p.right, hr, hb⟩
  have hcounts : ps.map (fun p => (s.shown? p.left).map Column.rows) =
      ps.map fun p => (s.shown? p.right).map Column.rows := by
    have hls := congrArg (List.map (Option.map Column.rows)) hleft.shown
    have hrs := congrArg (List.map (Option.map Column.rows)) hright.shown
    have hsome := congrArg (List.map some) hrows
    simp only [List.map_map] at hls hrs hsome
    exact hls.trans (hsome.trans hrs.symm)
  have hcount := List.map_inj_left.mp hcounts p hp
  rw [ha, hb] at hcount
  exact ⟨a, b, ha, hb, hleft.kind a ha_mem, hright.kind b hb_mem, Option.some.inj hcount⟩

/-- Vectors that can be joined, each of them with its partner. -/
theorem leads_operateAll (hs : s.Reachable .unlimited) {ps : List Pair}
    (hleft : s.Joinable (ps.map Pair.left) k ls) (hright : s.Joinable (ps.map Pair.right) k' rs)
    (hrows : ls.map Column.rows = rs.map Column.rows) (hk : k.isNumeric ∨ k.isTemporal)
    (hk' : k'.isNumeric ∨ k'.isTemporal) (hout : op.requireOutput out = .ok ()) {ds : List Column}
    (hds : List.zipWith (Column.operate op out) ls rs = ds.map .ok)
    (hfree : ∀ x ∈ ps.map Pair.result, s.vectors.find? x = none)
    (hdistinct : (ps.map Pair.result).Nodup) :
    s.Leads (ps.map fun p => .make (.operate op out p.left p.right) p.result)
      (s.Names (ps.map Pair.result) ds) := by
  let result (a b : Option Column) : Outcome Column := do
    Column.operate op out (← Outcome.ofOption a) (← Outcome.ofOption b)
  have hresults : ps.map (fun p => result (s.shown? p.left) (s.shown? p.right)) = ds.map .ok := by
    calc ps.map (fun p => result (s.shown? p.left) (s.shown? p.right))
        = List.zipWith result ((ps.map Pair.left).map s.shown?) ((ps.map Pair.right).map s.shown?) := by
          rw [List.map_map, List.map_map, List.zipWith_map, List.zipWith_self]
          rfl
      _ = List.zipWith (Column.operate op out) ls rs := by
          rw [hleft.shown, hright.shown, List.zipWith_map]
          rfl
      _ = ds.map .ok := hds
  refine leads_makeAll (m := fun p => .operate op out p.left p.right) hs hresults
    (fun p hp d hd u hu => ?_) (fun p hp => hfree _ (List.mem_map_of_mem hp)) hdistinct
  obtain ⟨a, b, ha, hb, rfl, rfl, hcount⟩ := hleft.partners hright hrows hp
  rw [ha, hb] at hd
  exact gives_operate (hu.reachable.sound invariant_wellFormed) (hu.shown _ _ ha) (hu.shown _ _ hb)
    (Operation.requireColumns_ok hk hk' hout hcount) hd

/-- Two vectors that others are joined to, and the results for them. -/
theorem leads_operate_joined (hs : s.Reachable .unlimited) {vs us : List String}
    (hleft : vs.map s.shown? = ls.map some) (hright : us.map s.shown? = rs.map some) {l r c : Column}
    (hl : Column.concat ls = .ok l) (hr : Column.concat rs = .ok r)
    (hchecks : op.requireColumns out l.shape r.shape = .ok ()) (hc : Column.operate op out l r = .ok c)
    {x y w : String} (hfree : ∀ z ∈ [x, y, w], s.vectors.find? z = none) (hdistinct : [x, y, w].Nodup) :
    s.Leads ([.make (.concat vs) x] ++ [.make (.concat us) y] ++ [.make (.operate op out x y) w])
      fun t => t.Displays w c := by
  simp only [List.forall_mem_cons, List.not_mem_nil, false_implies, implies_true, and_true] at hfree
  simp only [List.nodup_cons, List.mem_cons, List.not_mem_nil, or_false, not_or] at hdistinct
  obtain ⟨hx, hy, hw⟩ := hfree
  obtain ⟨⟨hxy, hxw⟩, hyw, -⟩ := hdistinct
  refine Leads.append (P := fun t => s.Retains t ∧ t.vectors.find? w = none ∧
    t.shown? x = some l ∧ t.shown? y = some r) ?_ fun t ht => ?_
  · refine (leads_make hs (gives_concat hs hleft hl) hx).append fun t ht => ?_
    obtain ⟨hnames, hdisplays⟩ := ht
    have hfree_y := hnames.free y (by simpa using Ne.symm hxy) hy
    have hfree_w := hnames.free w (by simpa using Ne.symm hxw) hw
    refine (leads_make hnames.reachable
      (gives_concat hnames.reachable (hnames.map_shown? hright) hr) hfree_y).mono fun u hu => ?_
    obtain ⟨hnames', hdisplays'⟩ := hu
    exact ⟨hnames.toRetains.trans hnames'.toRetains,
      hnames'.free w (by simpa using Ne.symm hyw) hfree_w,
      hnames'.shown x l hdisplays.shown, hdisplays'.shown⟩
  · obtain ⟨hretains, hw, hl, hr⟩ := ht
    have hgives := gives_operate (hretains.reachable.sound invariant_wellFormed) hl hr hchecks hc
    exact (leads_make hretains.reachable hgives hw).mono fun _ h => h.2

/-- **Operations distribute over concatenation.** In every session that commands lead to, the
results for what the operands are joined to, and what the results for each of their pairs are
joined to, are the same vector, unless a device fails to bring some data; all that is asked for
is that the operation can have such an output, and that storage for so many results can be set
aside. -/
theorem concat_operate (hs : s.Reachable .unlimited) (ps : List Pair)
    (hleft : s.Joinable (ps.map Pair.left) k ls) (hright : s.Joinable (ps.map Pair.right) k' rs)
    (hrows : ls.map Column.rows = rs.map Column.rows) (hk : k.isNumeric ∨ k.isTemporal)
    (hk' : k'.isNumeric ∨ k'.isTemporal) (hout : op.requireOutput out = .ok ())
    (hroom : Elements.reserved out (total (ls.map Column.rows)) ≤ maxSize) {x y w : String}
    (hfree : ∀ z ∈ x :: y :: w :: ps.map Pair.result, s.vectors.find? z = none)
    (hdistinct : (x :: y :: w :: ps.map Pair.result).Nodup) :
    let whole := s.run [.make (.concat (ps.map Pair.left)) x, .make (.concat (ps.map Pair.right)) y,
      .make (.operate op out x y) w]
    let parts := s.run (ps.map (fun p => .make (.operate op out p.left p.right) p.result) ++
      [.make (.concat (ps.map Pair.result)) w])
    ∃ l r c, Column.concat ls = .ok l ∧ Column.concat rs = .ok r ∧ Column.operate op out l r = .ok c ∧
      (Undisturbed whole.1 → whole.2.Displays w c) ∧ (Undisturbed parts.1 → parts.2.Displays w c) := by
  have hnames : (x :: y :: w :: ps.map Pair.result) = [x, y, w] ++ ps.map Pair.result := rfl
  rw [hnames, List.forall_mem_append] at hfree
  rw [hnames, List.nodup_append] at hdistinct
  obtain ⟨hfree_whole, hfree⟩ := hfree
  obtain ⟨hdistinct_whole, hdistinct, hapart⟩ := hdistinct
  have hw : s.vectors.find? w = none := hfree_whole w (by simp)
  have hw_new : w ∉ ps.map Pair.result := fun h => hapart w (by simp) w h rfl
  obtain ⟨as, has⟩ := hleft.parts hs
  obtain ⟨bs, hbs⟩ := hright.parts hs
  obtain ⟨l, r, c, ds, hl, hr, hchecks, hc, hds, hd⟩ :=
    has.concat_operates hbs hleft.columns_ne_nil hrows hk hk' hout hroom
  have hwhole := leads_operate_joined hs hleft.shown hright.shown hl hr hchecks hc hfree_whole hdistinct_whole
  have hparts := leads_operateAll hs hleft hright hrows hk hk' hout hds hfree hdistinct
  exact ⟨l, r, c, hl, hr, hc, hwhole.run,
    (hparts.append fun v hv => leads_concat hv.reachable hv.named hd (hv.free w hw_new hw)).run⟩

/-- A session with dividends on the host, one of them null, and a last one on a device; their
divisors are of another kind, and a zero is among them. -/
def dividends : Session := (Session.run { config := none } [
  .make (.ofParts (.int .w8) 3 [7, 100, 0xF9] (some [0xFB])) "a",
  .newRuntime "r" Runtime.faultless.plan,
  .newBuilder "m" (.int .w8) 1 false,
  .append "m" (.rows (.value (.int .w8) 9#8)),
  .build "m" (.runtime "r") "b",
  .make (.ofParts (.int .w16) 3 [2, 0, 0, 0, 5, 0] none) "p",
  .make (.ofParts (.int .w16) 1 [0xFC, 0xFF] none) "q"]).2

theorem reachable_dividends : dividends.Reachable .unlimited := by
  refine (Reachable.start none).run ?_
  simp [Command.Within, faithful_faultless]

set_option maxRecDepth 4000 in
theorem joinable_dividends : dividends.Joinable ["a", "b", "a"] (.int .w8)
    [⟨.int .w8, 3, 1, ⟨.fixed [7, 100, 0xF9], some ⟨0xFB :: List.replicate 63 0xFF⟩⟩⟩,
      ⟨.int .w8, 1, 0, ⟨.fixed [9], none⟩⟩,
      ⟨.int .w8, 3, 1, ⟨.fixed [7, 100, 0xF9], some ⟨0xFB :: List.replicate 63 0xFF⟩⟩⟩] :=
  ⟨by simp, rfl, by simp, by decide, by simp⟩

set_option maxRecDepth 4000 in
theorem joinable_divisors : dividends.Joinable ["p", "q", "p"] (.int .w16)
    [⟨.int .w16, 3, 0, ⟨.fixed [2, 0, 0, 0, 5, 0], none⟩⟩, ⟨.int .w16, 1, 0, ⟨.fixed [0xFC, 0xFF], none⟩⟩,
      ⟨.int .w16, 3, 0, ⟨.fixed [2, 0, 0, 0, 5, 0], none⟩⟩] :=
  ⟨by simp, rfl, by simp, by decide, by simp⟩

set_option maxRecDepth 4000 in
/-- The quotients: of the rows that are null, one has a null dividend and one a zero divisor. -/
theorem concat_operate_div :
    let c : Column := ⟨.int .w8, 7, 4, ⟨.fixed [3, 0, 0, 0xFE, 3, 0, 0],
      some ⟨0x99 :: List.replicate 63 0xFF⟩⟩⟩
    let whole := dividends.run [.make (.concat ["a", "b", "a"]) "x", .make (.concat ["p", "q", "p"]) "y",
      .make (.operate .div (.int .w8) "x" "y") "w"]
    let parts := dividends.run [.make (.operate .div (.int .w8) "a" "p") "f",
      .make (.operate .div (.int .w8) "b" "q") "g", .make (.operate .div (.int .w8) "a" "p") "h",
      .make (.concat ["f", "g", "h"]) "w"]
    whole.2.Displays "w" c ∧ parts.2.Displays "w" c := by
  intro c whole parts
  have hout : Operation.div.requireOutput (.int .w8) = .ok () := rfl
  obtain ⟨-, -, d, -, -, -, hwhole, hparts⟩ :=
    concat_operate (x := "x") (y := "y") (w := "w") reachable_dividends
      [⟨"a", "p", "f"⟩, ⟨"b", "q", "g"⟩, ⟨"a", "p", "h"⟩] joinable_dividends joinable_divisors
      (by decide) (.inl rfl) (.inl rfl) hout (by decide) (by decide +kernel) (by decide)
  have hdisplays : whole.2.Displays "w" d := hwhole (undisturbed_of_all (by decide +kernel))
  have hshown : whole.2.shown? "w" = some c := by decide +kernel
  obtain rfl : d = c := Option.some.inj (hdisplays.shown.symm.trans hshown)
  exact ⟨hdisplays, hparts (undisturbed_of_all (by decide +kernel))⟩

end Session

end Columnar

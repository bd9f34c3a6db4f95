/-
Casts of integers through another kind.

A cast of integers leaves of every element the residue that its width holds, at null rows too. What
the kind in between does not hold is lost, unless neither the source nor the target has it: a kind as
wide as one of them can be left out (`Kind.recast_recast`). Then a cast of a cast is a cast
(`Column.cast_cast`), and a cast to and fro brings the column back.
-/
import Columnar.Proofs.Computing
import Columnar.Proofs.Yielding

namespace Columnar

open Primitive

variable {source middle target : Kind} {f g : Primitive} {p q t : Width} {cell : Bytes}

/-! ## Cells -/

namespace Primitive

/-- Bytes of a width are the same if they write the same integer. -/
theorem eq_of_signed {w : Width} {cell cell' : Bytes} (hcell : cell.length = w.bytes)
    (hcell' : cell'.length = w.bytes) (h : signed w cell = signed w cell') : cell = cell' := by
  have hdecode : decode (.int w) cell = decode (.int w) cell' := BitVec.toInt_inj.mp h
  rw [← encode_decode_int hcell, hdecode, encode_decode_int hcell']

/-- A residue modulo the size of a width tells that modulo the size of a narrower one. -/
theorem bmod_bmod_of_le {v w : Width} (h : v.bytes ≤ w.bytes) (n : Int) :
    (n.bmod (2 ^ w.bits)).bmod (2 ^ v.bits) = n.bmod (2 ^ v.bits) :=
  Int.bmod_bmod_of_dvd (Nat.pow_dvd_pow 2 (Nat.mul_le_mul_left 8 h))

end Primitive

namespace Kind

theorem length_recast (hf : source.primitive? = some f) (hg : target.primitive? = some g)
    (hcell : cell.length = f.width) : (source.recast target cell).length = g.width := by
  by_cases hkinds : source = target
  · subst hkinds
    obtain rfl : f = g := Option.some.inj (hf.symm.trans hg)
    rwa [recast_self]
  · rw [recast_of_forms hkinds hf hg]
    exact g.length_encode _

/-- **A kind in between** can be left out, if it is as wide as the narrower of the two. -/
theorem recast_recast (hp : source.primitive? = some (.int p)) (hq : middle.primitive? = some (.int q))
    (ht : target.primitive? = some (.int t)) (hwide : min p.bytes t.bytes ≤ q.bytes)
    (hcell : cell.length = p.bytes) :
    middle.recast target (source.recast middle cell) = source.recast target cell := by
  have hmiddle : (source.recast middle cell).length = q.bytes := length_recast hp hq hcell
  refine eq_of_signed (length_recast hq ht hmiddle) (length_recast hp ht hcell) ?_
  simp only [signed_recast hq ht, signed_recast hp ht, Number.read_int, Number.toInt,
    signed_recast hp hq]
  have hnarrower : p.bytes ≤ q.bytes ∨ t.bytes ≤ q.bytes := by omega
  rcases hnarrower with hsource | htarget
  · rw [bmod_signed hsource]
  · exact bmod_bmod_of_le htarget _

end Kind

/-! ## Columns -/

/-- **A cast of a cast** is a cast, if the kind in between can be left out. -/
theorem Column.cast_cast {c : Column} (hrows : ∃ held, c.Holds held)
    (hp : c.kind.primitive? = some (.int p)) (hq : middle.primitive? = some (.int q))
    (ht : target.primitive? = some (.int t)) (hwide : min p.bytes t.bytes ≤ q.bytes) :
    ∃ d e, c.cast middle = .ok d ∧ d.cast target = .ok e ∧ c.cast target = .ok e := by
  obtain ⟨held, hheld⟩ := hrows
  obtain ⟨rule, hrule⟩ := Kind.castRule?_of_forms hp hq
  obtain ⟨rule', hrule'⟩ := Kind.castRule?_of_forms hq ht
  obtain ⟨rule'', hrule''⟩ := Kind.castRule?_of_forms hp ht
  obtain ⟨d, hd⟩ := cast_ok hheld.suits hrule
  have hmiddle := hheld.recast hrule hd
  obtain ⟨x, rfl, -⟩ := cast_eq_ok hd
  obtain ⟨e, he⟩ := cast_ok hmiddle.suits hrule'
  obtain ⟨e', he'⟩ := cast_ok hheld.suits hrule''
  have hthrough := (hmiddle.recast hrule' he).elements
  have hdirect := (hheld.recast hrule'' he').elements
  obtain ⟨y, rfl, -⟩ := cast_eq_ok he
  obtain ⟨z, rfl, -⟩ := cast_eq_ok he'
  have hcells : ((held.map (Row.recast c.kind middle)).map (Row.recast middle target)).map Row.cell =
      (held.map (Row.recast c.kind target)).map Row.cell := by
    simp only [List.map_map]
    refine List.map_congr_left fun r hr => ?_
    have hcell := (Kind.isCell_iff hp _).mp (hheld.isCell _ (List.mem_map_of_mem hr))
    exact Kind.recast_recast hp hq ht hwide hcell
  obtain rfl : y = z := hthrough.trans ((congrArg _ hcells).trans hdirect.symm)
  exact ⟨_, _, hd, he, he'⟩

/-! ## Every reachable session -/

namespace Session

variable {s : Session} {u v w : String} {c : Column}

/-- **Casts go through kinds that are wide enough.** In every session that commands lead to, a cast
of a vector of integers or dates, such as memory holds, to another such kind makes the
same vector whether or not it goes by way of a third that is at least as wide as the narrower of the
two, unless a device fails to bring some data. To and fro by way of a kind that is at least as wide,
it is the vector that there was. -/
theorem cast_through (hs : s.Reachable .unlimited) (hc : s.shown? v = some c)
    (hmemory : c.InMemory) (hp : c.kind.primitive? = some (.int p))
    (hq : middle.primitive? = some (.int q)) (ht : target.primitive? = some (.int t))
    (hwide : min p.bytes t.bytes ≤ q.bytes) (hu : s.vectors.find? u = none)
    (hw : s.vectors.find? w = none) (hne : u ≠ w) :
    ∃ d, c.cast target = .ok d ∧
      s.Yields [.make (.cast v middle) u, .make (.cast u target) w] w (.ok d) ∧
      s.Yields [.make (.cast v target) w] w (.ok d) ∧ (target = c.kind → d = c) := by
  have hwell := (hs.sound invariant_wellFormed).shown hc
  obtain ⟨held, hheld⟩ := hwell.holds
  obtain ⟨d, e, hd, he, hdirect⟩ := Column.cast_cast hwell.holds hp hq ht hwide
  have hmiddle_room := hmemory.reserved_le hheld hp hq
  have htarget_room := hmemory.reserved_le hheld hp ht
  have hthrough : s.Yields [.make (.cast v middle) u, .make (.cast u target) w] w
      (c.cast middle >>= (·.cast target)) := by
    refine yields_make_cast hs (Action.comesTo_cast hs hc (.inr hmiddle_room)) hu hw hne fun d' hd' => ?_
    obtain ⟨x, rfl, -⟩ := Column.cast_eq_ok hd'
    exact .inr htarget_room
  have honce : s.Yields [.make (.cast v target) w] w (c.cast target) :=
    yields_make hs (Action.comesTo_cast hs hc (.inr htarget_room)) hw
  rw [hd] at hthrough
  refine ⟨e, hdirect, he ▸ hthrough, hdirect ▸ honce, ?_⟩
  rintro rfl
  exact Except.ok.inj (hdirect.symm.trans c.cast_self)

set_option maxRecDepth 4000 in
/-- Three 16-bit integers by way of dates, to eight bits and back: one is negative, one takes more
bits than eight, and the least of all is null. -/
theorem cast_through_date :
    let s := (Session.run { config := none } [
      .make (.ofParts (.int .w16) 3 [0xFE, 0xFF, 0x2C, 1, 0, 0x80] (some [0xFB])) "v"]).2
    let c : Column := ⟨.int .w16, 3, 1,
      ⟨.fixed [0xFE, 0xFF, 0x2C, 1, 0, 0x80], some ⟨0xFB :: List.replicate 63 0xFF⟩⟩⟩
    let d : Column := ⟨.int .w8, 3, 1, ⟨.fixed [0xFE, 0x2C, 0], some ⟨0xFB :: List.replicate 63 0xFF⟩⟩⟩
    s.Reachable .unlimited ∧ s.shown? "v" = some c ∧ c.InMemory ∧
      (s.run [.make (.cast "v" .date) "u", .make (.cast "u" (.int .w8)) "w"]).2.Displays "w" d ∧
      (s.run [.make (.cast "v" (.int .w8)) "w"]).2.Displays "w" d ∧
      (s.run [.make (.cast "v" .date) "u", .make (.cast "u" (.int .w16)) "w"]).2.Displays "w" c := by
  intro s c d
  have hs : s.Reachable .unlimited := by
    refine (Session.Reachable.start none).run ?_
    simp [Command.Within]
  have hc : s.shown? "v" = some c := rfl
  have hmemory : c.InMemory := by
    unfold Column.InMemory
    decide
  have hdate : Kind.date.primitive? = some (.int .w32) := rfl
  have hbyte : (Kind.int .w8).primitive? = some (.int .w8) := rfl
  have hshort : (Kind.int .w16).primitive? = some (.int .w16) := rfl
  obtain ⟨e, he, hthrough, honce, -⟩ := cast_through (u := "u") (w := "w") hs hc hmemory hshort
    hdate hbyte (by decide) rfl rfl (by decide)
  obtain ⟨e', -, hreturn, -, hsame⟩ := cast_through (u := "u") (w := "w") hs hc hmemory hshort
    hdate hshort (by decide) rfl rfl (by decide)
  obtain rfl : e = d := Except.ok.inj (he.symm.trans rfl)
  obtain rfl := hsame rfl
  exact ⟨hs, hc, hmemory, hthrough.displays rfl (undisturbed_of_all (by decide +kernel)),
    honce.displays rfl (undisturbed_of_all (by decide +kernel)),
    hreturn.displays rfl (undisturbed_of_all (by decide +kernel))⟩

end Session

end Columnar

import Parkour.Proofs.Number.Single
import Parkour.Proofs.Player.Validity
import Parkour.Report.Listener

/-!
# What a stop listener foresees

After a tick in the plane a stop listener works out what the next tick will do to the
velocities before it looks for those that inertia stops. It takes the sign away before the
drag where the tick does so behind it, and asks whether a speed is not below the threshold
where the tick asks whether it is below.
-/

namespace Parkour.Report

open Player (Controls)

variable {p q : Player} {c last : Controls} {l : StopListener}

/-! ## The drag of the next tick -/

theorem slipOf_positive (h : p.Valid) (c : Controls) :
    (p.slipOf c).isFinite = true ∧ 0 < p.slipOf c := by
  unfold Player.slipOf
  split
  · next slip _ =>
    split
    · next hgood =>
      cases hchecked : Player.checkSlip slip with
      | error refusal =>
          rw [hchecked] at hgood
          cases hgood
      | ok checked => exact (Player.checkSlip_eq_ok hchecked).2
    · exact h.groundSlip
  · exact h.groundSlip

theorem dragAfter_positive (h : p.Valid) (c : Controls) :
    (Player.dragAfter c (p.slipOf c)).isFinite = true ∧
      0 < Player.dragAfter c (p.slipOf c) := by
  obtain ⟨hfinite, hpos⟩ := slipOf_positive h c
  unfold Player.dragAfter
  split
  · exact Number.slip_positive hfinite hpos
  · decide +kernel

/-- What a tick in the plane leaves as drag to the next one is finite and above zero. -/
theorem nextDrag_positive (h : q.Valid) (haxis : q.axis = .horizontal) (last : Controls) :
    (nextDrag (q.tick last)).isFinite = true ∧ 0 < nextDrag (q.tick last) := by
  have hslip : (q.tick last).prevSlip = Player.dragAfter last (q.slipOf last) := by
    unfold Player.tick Player.move
    rw [haxis]
    rfl
  unfold nextDrag
  split
  · decide +kernel
  · split
    · decide +kernel
    · rw [hslip]
      exact dragAfter_positive h last

/-- The listener expects of water what the motion in the plane applies. -/
theorem waterDrag_eq : waterDrag = Player.waterDrag := rfl

/-- The listener expects of lava what the motion in the plane applies. -/
theorem lavaDrag_eq : lavaDrag = Player.lavaDrag := rfl

/-- Off soul sand, the next tick applies this drag. -/
theorem dragged_eq (hsoulsand : c.terrain.soulsand = false) (v : Float) :
    p.dragged c v = v * Number.widen (nextDrag p) := by
  unfold Player.dragged nextDrag Player.Terrain.inFluid
  rw [hsoulsand, waterDrag_eq, lavaDrag_eq]
  cases p.prevTerrain.water with
  | true => rfl
  | false =>
      cases p.prevTerrain.lava with
      | true => rfl
      | false => rfl

/-! ## The stop -/

/-- What is foreseen of one velocity of a tick, which is `dragged` before inertia and `left`
behind it. -/
def foreseen (l : StopListener) (p : Player) (name : String) (dragged left : Float) :
    List Event :=
  if !(dragged == 0) && left == 0 then
    [.readout (tickLabel l.label (elapsed l.start p.ticks) name) dragged.abs (some p.inertia)
      p.precision.toNat]
  else []

/-- A listener with no room for near misses reports the speeds that inertia is about to stop. -/
theorem watch_eq_foreseen (hinertia : p.inertia.isFinite = true) (hmiss : (l.miss == 0) = true)
    (name : String) {v : Float} (hv : v.isNaN = false) :
    l.watch p name v.abs = foreseen l p name v (if v.abs < p.inertia then 0 else v) := by
  have hspeed : v.abs.isNaN = false := (Number.isNaN_abs v).trans hv
  have hbelow : v.abs ≥ p.inertia + l.miss ↔ ¬v.abs < p.inertia :=
    (Number.add_zero_le hmiss v.abs).trans
      (Number.not_lt_iff_le hspeed (Number.isNaN_of_isFinite hinertia)).symm
  unfold StopListener.watch foreseen
  rw [Number.abs_beq_zero]
  by_cases hstops : v.abs < p.inertia
  · rw [if_pos hstops]
    have hkept : decide (v.abs ≥ p.inertia + l.miss) = false := by
      rw [decide_eq_false_iff_not, hbelow, not_not]
      exact hstops
    rw [hkept]
    cases v == 0 <;> rfl
  · rw [if_neg hstops]
    have hkept : decide (v.abs ≥ p.inertia + l.miss) = true := by
      rw [decide_eq_true_iff, hbelow]
      exact hstops
    rw [hkept]
    cases v == 0 <;> rfl

/-- A stop listener that reports no near misses foresees the next tick, as long as no setting
comes in between, no web and no soul sand act in it, and every coordinate stops on its own: for
each velocity it reports the speed that the tick will compare with the threshold, exactly if
that is not zero already and inertia will stop it. -/
theorem observe_eq_foreseen (hq : q.Valid) (haxis : q.axis = .horizontal) (last : Controls)
    (hmode : (q.tick last).inertiaMode = .perAxis) (hvx : (q.tick last).vx.isNaN = false)
    (hvz : (q.tick last).vz.isNaN = false) (hmiss : (l.miss == 0) = true)
    (hweb : c.terrain.web = false) (hsoulsand : c.terrain.soulsand = false) :
    let p := q.tick last
    l.observe p =
      foreseen l p "vx" (p.dragged c p.vx) (p.braked c).1 ++
        foreseen l p "vz" (p.dragged c p.vz) (p.braked c).2 := by
  intro p
  obtain ⟨hfinite, hpos⟩ := nextDrag_positive hq haxis last
  obtain ⟨hfinite, hpos⟩ := Number.widen_positive hfinite hpos
  have hinertia : p.inertia.isFinite = true := (hq.tick last).inertia.1
  have hbraked : p.braked c =
      (if (p.dragged c p.vx).abs < p.inertia then 0 else p.dragged c p.vx,
        if (p.dragged c p.vz).abs < p.inertia then 0 else p.dragged c p.vz) := by
    unfold Player.braked Player.stopped
    rw [hweb, hmode]
    rfl
  have hobserve : l.observe p =
      l.watch p "vx" (p.dragged c p.vx).abs ++ l.watch p "vz" (p.dragged c p.vz).abs := by
    unfold StopListener.observe
    rw [(Player.axis_tick q last).trans haxis, hmode, dragged_eq hsoulsand, dragged_eq hsoulsand,
      Number.abs_mul hfinite hpos, Number.abs_mul hfinite hpos]
  have hnumber : ∀ v : Float, v.isNaN = false → (p.dragged c v).isNaN = false := by
    intro v hv
    rw [dragged_eq hsoulsand]
    exact Number.isNaN_mul hv hfinite hpos
  rw [hobserve, hbraked, watch_eq_foreseen hinertia hmiss "vx" (hnumber _ hvx),
    watch_eq_foreseen hinertia hmiss "vz" (hnumber _ hvz)]

/-- A small velocity outlasts one tick of standing still, but not a second one. -/
theorem observe_eq_foreseen_stop :
    let q : Player := { axis := .horizontal, vz := 0.01 }
    let stop : Controls := { phase := .ground }
    let p := q.tick stop
    let l : StopListener := { miss := 0, label := "stop", start := 0 }
    l.observe p =
        foreseen l p "vx" (p.dragged stop p.vx) (p.braked stop).1 ++
          foreseen l p "vz" (p.dragged stop p.vz) (p.braked stop).2 ∧
      (l.observe p).map Event.display = ["stop t1 vz: 0.005 - 0.002019"] := by
  intro q stop p l
  have hq : q.Valid := (Player.valid_new .horizontal).setVelocity .z 0.01
  have hvx : p.vx.isNaN = false := by decide +kernel
  have hvz : p.vz.isNaN = false := by decide +kernel
  have hmiss : (l.miss == 0) = true := by decide +kernel
  exact ⟨observe_eq_foreseen hq rfl stop rfl hvx hvz hmiss rfl rfl, by decide +kernel⟩

end Parkour.Report

import Parkour.Proofs.Number.Packing
import Parkour.Proofs.Player.Validity

/-!
# Under the ceiling

A head that would pass the ceiling is announced one tick ahead, and the snap that is
announced is taken before the player moves again. So the feet are never above the height
at which the head just fits.
-/

namespace Parkour.Player

variable {p : Player} {limit ceiling : Float}

/-- The players that settings and ticks can lead to. -/
inductive Reachable : Player → Prop where
  | new (axis : Axis) : Reachable { axis }
  | setting {p q : Player} (h : Reachable p) (hset : Setting p q) : Reachable q
  | tick {p : Player} (h : Reachable p) (c : Controls) : Reachable (p.tick c)

theorem Reachable.valid (h : Reachable p) : p.Valid := by
  induction h with
  | new axis => exact valid_new axis
  | setting h hset ih => exact hset.valid ih
  | tick h c ih => exact ih.tick c

/-- A pending snap is the one of the ceiling. -/
theorem Valid.snap_eq (h : p.Valid) (hceiling : p.ceiling = some ceiling) :
    ∀ snap ∈ p.pendingSnap, snap = ceiling - height := by
  intro snap hsnap
  obtain ⟨c, hc, hlimit, -, -⟩ := h.pendingSnap snap hsnap
  rw [hceiling] at hc
  cases hc
  exact hlimit

/-- The players after each tick of some controls. -/
def course (p : Player) : List Controls → List Player
  | [] => []
  | c :: cs => p.tick c :: (p.tick c).course cs

/-- The feet are not above the limit, and the next tick does not lead them there: it takes a
snap that was announced, or there is no need of one. -/
structure Sheltered (p : Player) (limit : Float) : Prop where
  below : ¬limit < p.y
  snap : ∀ snap ∈ p.pendingSnap, snap = limit
  announced : p.pendingSnap = some limit ∨ ¬(0 < p.vy ∧ limit < p.y + p.vy)

/-- A snap leads to the limit, and without one the next move does not pass it. -/
theorem Sheltered.carried (h : p.Sheltered limit) : ¬limit < (carried p).1 := by
  unfold Player.carried
  split
  · next snap hpending =>
    rw [h.snap snap hpending]
    exact Number.not_lt_self limit
  · next hpending =>
    have hfree : ¬(0 < p.vy ∧ limit < p.y + p.vy) :=
      h.announced.resolve_left (by rw [hpending]; exact nofun)
    by_cases hrise : 0 < p.vy
    · exact fun hpass => hfree ⟨hrise, hpass⟩
    · exact Number.not_lt_add hrise h.below

/-- What would pass the limit is announced. -/
theorem snapAt_announced (ceiling y vy : Float) :
    snapAt (some ceiling) y vy = some (ceiling - height) ∨
      ¬(0 < vy ∧ ceiling - height < y + vy) := by
  by_cases hpass : 0 < vy ∧ ceiling - height < y + vy
  · exact .inl (if_pos hpass)
  · exact .inr hpass

theorem pendingSnap_moveInHeight (p : Player) (c : Controls) :
    (moveInHeight p c).pendingSnap =
      snapAt p.ceiling (moveInHeight p c).y (moveInHeight p c).vy := rfl

theorem Sheltered.moveInHeight (h : p.Sheltered (ceiling - height))
    (hceiling : p.ceiling = some ceiling) (c : Controls) :
    (moveInHeight p c).Sheltered (ceiling - height) where
  below := h.carried
  snap := by
    intro snap hsnap
    rw [pendingSnap_moveInHeight, hceiling] at hsnap
    obtain ⟨_, ⟨⟩, hlimit, -, -⟩ := snapAt_eq_some hsnap
    exact hlimit
  announced := by
    rw [pendingSnap_moveInHeight, hceiling]
    exact snapAt_announced ceiling _ _

/-- One tick of the vertical model keeps the player under its ceiling. -/
theorem Sheltered.tick (h : p.Sheltered (ceiling - height)) (haxis : p.axis = .vertical)
    (hceiling : p.ceiling = some ceiling) (c : Controls) :
    (p.tick c).Sheltered (ceiling - height) ∧ (p.tick c).ceiling = some ceiling := by
  have hmove : p.move c = Player.moveInHeight p c := by rw [move, haxis]
  have hnext := h.moveInHeight hceiling c
  unfold Player.tick
  rw [hmove]
  exact ⟨⟨hnext.below, hnext.snap, hnext.announced⟩, hceiling⟩

/-- So do any number of them, without a setting in between. -/
theorem Sheltered.course (h : p.Sheltered (ceiling - height)) (haxis : p.axis = .vertical)
    (hceiling : p.ceiling = some ceiling) (cs : List Controls) :
    ∀ q ∈ p.course cs, q.Sheltered (ceiling - height) := by
  induction cs generalizing p with
  | nil => exact List.forall_mem_nil _
  | cons c cs ih =>
      obtain ⟨hnext, hsame⟩ := h.tick haxis hceiling c
      have hvertical : (p.tick c).axis = .vertical := (axis_tick p c).trans haxis
      exact List.forall_mem_cons.mpr ⟨hnext, ih hnext hvertical hsame⟩

/-- A fresh player is under every ceiling that it accepts. -/
theorem sheltered_fresh
    (h : ({ axis := .vertical } : Player).setCeiling (some ceiling) = .ok p) :
    p.Sheltered (ceiling - height) := by
  obtain ⟨hfits, rfl⟩ := setCeiling_eq_ok h
  obtain ⟨-, hheight⟩ := hfits ceiling rfl
  have hfinite : height.isFinite = true := by decide +kernel
  exact {
    below := Number.not_sub_lt_zero hfinite hheight
    snap := nofun
    announced := .inr fun hrise => Number.not_lt_self 0 hrise.1 }

/-- The ceiling is never passed: a player that is not above it, and has a snap announced where
it would be next, is not above it after any of its ticks. A pending snap has to be that of
the ceiling, as it is in every player that settings and ticks lead to. A fresh player with a
ceiling is such a one. -/
theorem course_below (cs : List Controls) :
    (∀ p : Player, p.axis = .vertical → p.ceiling = some ceiling →
        (Reachable p ∨ ∀ snap ∈ p.pendingSnap, snap = ceiling - height) →
        ¬ceiling - height < p.y →
        (p.pendingSnap = some (ceiling - height) ∨
          ¬(0 < p.vy ∧ ceiling - height < p.y + p.vy)) →
        ∀ q ∈ p.course cs, ¬ceiling - height < q.y) ∧
      ∀ p : Player, ({ axis := .vertical } : Player).setCeiling (some ceiling) = .ok p →
        ∀ q ∈ p.course cs, ¬ceiling - height < q.y := by
  constructor
  · intro p haxis hceiling hsource hbelow hannounced q hq
    have hsnap : ∀ snap ∈ p.pendingSnap, snap = ceiling - height := by
      cases hsource with
      | inl hreachable => exact hreachable.valid.snap_eq hceiling
      | inr hsnap => exact hsnap
    have hsheltered : p.Sheltered (ceiling - height) := ⟨hbelow, hsnap, hannounced⟩
    exact (hsheltered.course haxis hceiling cs q hq).below
  · intro p hset q hq
    have hsheltered := sheltered_fresh hset
    obtain ⟨-, rfl⟩ := setCeiling_eq_ok hset
    exact (hsheltered.course rfl rfl cs q hq).below

/-- A fresh player jumps under a ceiling that is two blocks high; the snap comes in the tick
after. -/
theorem course_below_jump :
    let p : Player := { axis := .vertical, ceiling := some 2 }
    let jump : Controls := { phase := .jump }
    ({ axis := .vertical } : Player).setCeiling (some 2) = .ok p ∧
      (∀ q ∈ p.course [jump, { phase := .air }], ¬2 - height < q.y) ∧
      (p.tick jump).pendingSnap = some (2 - height) ∧
      ∀ q ∈ (p.tick jump).course [{ phase := .air }, jump, { phase := .slime }],
        ¬2 - height < q.y := by
  intro p jump
  have hfits : ¬(!(2 : Float).isFinite || decide ((2 : Float) < height)) = true := by
    decide +kernel
  have hset : ({ axis := .vertical } : Player).setCeiling (some 2) = .ok p := by
    unfold setCeiling
    exact if_neg hfits
  have hpass : 0 < (p.tick jump).vy ∧ 2 - height < (p.tick jump).y + (p.tick jump).vy := by
    decide +kernel
  have hsnap : (p.tick jump).pendingSnap = some (2 - height) := if_pos hpass
  have hbelow : ¬2 - height < (p.tick jump).y := by decide +kernel
  have hreachable : Reachable (p.tick jump) :=
    .tick (.setting (.new .vertical) (.ceiling hset)) jump
  refine ⟨hset, (course_below _).2 p hset, hsnap, ?_⟩
  exact (course_below _).1 (p.tick jump) rfl rfl (.inl hreachable) hbelow (.inl hsnap)

end Parkour.Player

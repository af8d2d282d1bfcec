import Mathlib
import Parkour.Player.Fingerprint

/-!
# What a fingerprint tells apart

The bytes of a player can be read back. All fields ahead of the queues have a fixed width,
so each is found by its place; the two numbers behind the queues are found from the end,
and the first of them says where the queue of facings stops. A height of ones only is what
an absent height is written as, so it is the one height that has to be left out.
-/

namespace Parkour.Player

/-! ### Codes of a fixed width -/

/-- A code that tells its values apart and always has the same length. -/
structure FixedWidth {α : Type} (code : α → List UInt8) (width : Nat) : Prop where
  length : ∀ a, (code a).length = width
  injective : ∀ a b, code a = code b → a = b

section Codes

variable {α : Type} {code : α → List UInt8} {width : Nat}

/-- A code in front of other bytes is read off them. -/
theorem FixedWidth.append_inj (h : FixedWidth code width) {a b : α} {s t : List UInt8} :
    code a ++ s = code b ++ t ↔ a = b ∧ s = t := by
  constructor
  · intro heq
    obtain ⟨hcode, hrest⟩ := List.append_inj heq ((h.length a).trans (h.length b).symm)
    exact ⟨h.injective a b hcode, hrest⟩
  · rintro ⟨rfl, rfl⟩
    rfl

/-- So are all values that are written one after the other. -/
theorem FixedWidth.flatMap_inj (h : FixedWidth code width) (hwidth : 0 < width) (l m : List α)
    (heq : l.flatMap code = m.flatMap code) : l = m := by
  have hne : ∀ a, code a ≠ [] := fun a => List.ne_nil_of_length_pos (h.length a ▸ hwidth)
  induction l generalizing m with
  | nil =>
      cases m with
      | nil => rfl
      | cons b m => exact absurd (List.append_eq_nil_iff.mp heq.symm).1 (hne b)
  | cons a l ih =>
      cases m with
      | nil => exact absurd (List.append_eq_nil_iff.mp heq).1 (hne a)
      | cons b m =>
          obtain ⟨hhead, hrest⟩ := h.append_inj.mp heq
          rw [hhead, ih m hrest]

end Codes

@[simp] theorem length_littleEndian (count n : Nat) : (littleEndian count n).length = count := by
  induction count generalizing n with
  | zero => rfl
  | succ count ih => exact congrArg (· + 1) (ih (n / 256))

/-- Numbers that fit into the bytes are told apart. -/
theorem littleEndian_inj {count n m : Nat} (hn : n < 256 ^ count) (hm : m < 256 ^ count)
    (h : littleEndian count n = littleEndian count m) : n = m := by
  induction count generalizing n m with
  | zero => omega
  | succ count ih =>
      rw [Nat.pow_succ] at hn hm
      obtain ⟨hlow, hhigh⟩ := List.cons.inj h
      have hbyte : n % 256 = m % 256 := congrArg UInt8.toNat hlow
      have hrest : n / 256 = m / 256 := ih (by omega) (by omega) hhigh
      omega

/-- The bytes of a 16-bit word. -/
def bytes16 (n : UInt16) : List UInt8 := littleEndian 2 n.toNat

/-- The bytes of a 32-bit word. -/
def bytes32 (n : UInt32) : List UInt8 := littleEndian 4 n.toNat

/-- The bytes of a 64-bit word. -/
def bytes64 (n : UInt64) : List UInt8 := littleEndian 8 n.toNat

theorem fixedWidth_bytes16 : FixedWidth bytes16 2 where
  length _ := length_littleEndian 2 _
  injective a b h := UInt16.toNat_inj.mp (littleEndian_inj a.toNat_lt b.toNat_lt h)

theorem fixedWidth_bytes32 : FixedWidth bytes32 4 where
  length _ := length_littleEndian 4 _
  injective a b h := UInt32.toNat_inj.mp (littleEndian_inj a.toNat_lt b.toNat_lt h)

theorem fixedWidth_bytes64 : FixedWidth bytes64 8 where
  length _ := length_littleEndian 8 _
  injective a b h := UInt64.toNat_inj.mp (littleEndian_inj a.toNat_lt b.toNat_lt h)

theorem axisByte_inj {a b : Axis} : axisByte a = axisByte b ↔ a = b := by
  cases a <;> cases b <;> decide

theorem phaseByte_inj {a b : Phase} : phaseByte a = phaseByte b ↔ a = b := by
  cases a <;> cases b <;> decide

theorem inertiaModeByte_inj {a b : InertiaMode} :
    inertiaModeByte a = inertiaModeByte b ↔ a = b := by
  cases a <;> cases b <;> decide

theorem flagByte_inj {a b : Bool} : flagByte a = flagByte b ↔ a = b := by
  cases a <;> cases b <;> decide

/-! ### The bits of a player -/

/-- The fields of a player with every number as its bits. -/
structure Imprint where
  axis : Axis
  x : UInt64
  z : UInt64
  vx : UInt64
  vz : UInt64
  y : UInt64
  vy : UInt64
  inertia : UInt64
  facing : UInt32
  groundSlip : UInt32
  prevSlip : UInt32
  terrain : UInt8
  prevTerrain : UInt8
  prevSprint : Bool
  prevSneak : Bool
  phase : Phase
  inertiaMode : InertiaMode
  speed : UInt16
  slowness : UInt16
  jumpBoost : UInt16
  precision : UInt64
  ceiling : Option UInt64
  pendingSnap : Option UInt64
  angles : List UInt32
  turns : List UInt32
  ticks : UInt64
deriving DecidableEq

/-- The pattern of an absent height. -/
def absent : UInt64 := 0xFFFFFFFFFFFFFFFF

/-- All fields as bytes. -/
def Imprint.bytes (i : Imprint) : List UInt8 :=
  axisByte i.axis ::
    [i.x, i.z, i.vx, i.vz, i.y, i.vy, i.inertia].flatMap bytes64 ++
    [i.facing, i.groundSlip, i.prevSlip].flatMap bytes32 ++
    [i.terrain, i.prevTerrain, flagByte i.prevSprint, flagByte i.prevSneak,
      phaseByte i.phase, inertiaModeByte i.inertiaMode] ++
    [i.speed, i.slowness, i.jumpBoost].flatMap bytes16 ++
    bytes64 i.precision ++
    [i.ceiling.getD absent, i.pendingSnap.getD absent].flatMap bytes64 ++
    (i.angles ++ i.turns).flatMap bytes32 ++
    littleEndian 8 i.angles.length ++
    bytes64 i.ticks

/-- The bits of a player. -/
def imprint (p : Player) : Imprint where
  axis := p.axis
  x := p.x.toBits
  z := p.z.toBits
  vx := p.vx.toBits
  vz := p.vz.toBits
  y := p.y.toBits
  vy := p.vy.toBits
  inertia := p.inertia.toBits
  facing := p.facing.toBits
  groundSlip := p.groundSlip.toBits
  prevSlip := p.prevSlip.toBits
  terrain := p.terrain.mask
  prevTerrain := p.prevTerrain.mask
  prevSprint := p.prevSprint
  prevSneak := p.prevSneak
  phase := p.phase
  inertiaMode := p.inertiaMode
  speed := p.speed
  slowness := p.slowness
  jumpBoost := p.jumpBoost
  precision := p.precision
  ceiling := p.ceiling.map Float.toBits
  pendingSnap := p.pendingSnap.map Float.toBits
  angles := p.angles.map Float32.toBits
  turns := p.turns.map Float32.toBits
  ticks := p.ticks

theorem heightBytes_eq (h : Option Float) :
    heightBytes h = bytes64 ((h.map Float.toBits).getD absent) := by
  cases h <;> rfl

/-- The bytes of a player are those of its bits. -/
theorem bytes_eq_imprint (p : Player) : p.bytes = p.imprint.bytes := by
  have hqueues : (p.angles ++ p.turns).flatMap float32Bytes =
      (p.imprint.angles ++ p.imprint.turns).flatMap bytes32 := by
    simp only [imprint, ← List.map_append, List.flatMap_map]
    rfl
  have hlength : p.angles.length = p.imprint.angles.length := (List.length_map _).symm
  have hheights : [p.ceiling, p.pendingSnap].flatMap heightBytes =
      [p.imprint.ceiling.getD absent, p.imprint.pendingSnap.getD absent].flatMap bytes64 := by
    simp only [List.flatMap_cons, List.flatMap_nil, heightBytes_eq, imprint]
  unfold bytes Imprint.bytes
  rw [hqueues, hlength, hheights]
  rfl

/-- Masks are read back. -/
theorem ofMask_mask (t : Terrain) : Terrain.ofMask t.mask.toNat = t := by
  obtain ⟨water, lava, web, ladder, block, soulsand⟩ := t
  revert water lava web ladder block soulsand
  decide

theorem mask_inj {t u : Terrain} : t.mask = u.mask ↔ t = u := by
  refine ⟨fun h => ?_, congrArg _⟩
  rw [← ofMask_mask t, h, ofMask_mask u]

/-- A player is known by its bits. -/
theorem imprint_inj {p q : Player} (h : p.imprint = q.imprint) : p = q := by
  have hbits : Function.Injective Float.toBits := fun _ _ => Float.toBits_inj.mp
  have hbits32 : Function.Injective Float32.toBits := fun _ _ => Float32.toBits_inj.mp
  simp only [imprint, Imprint.mk.injEq, Float.toBits_inj, Float32.toBits_inj, mask_inj,
    (Option.map_injective hbits).eq_iff, (List.map_injective_iff.mpr hbits32).eq_iff] at h
  cases p
  cases q
  simp_all only

/-! ### Reading the bytes back -/

/-- Heights are numbers, and the length of a queue fits into the bytes it is written in. -/
structure Imprint.Proper (i : Imprint) : Prop where
  ceiling : ∀ bits ∈ i.ceiling, (Float.ofBits bits).isNaN = false
  pendingSnap : ∀ bits ∈ i.pendingSnap, (Float.ofBits bits).isNaN = false
  angles : i.angles.length < 2 ^ 64

/-- The pattern of an absent height is no number. -/
theorem isNaN_absent : (Float.ofBits absent).isNaN = true := by
  decide +kernel

/-- A height that is a number is not taken for an absent one. -/
theorem getD_absent_inj {a b : Option UInt64}
    (ha : ∀ bits ∈ a, (Float.ofBits bits).isNaN = false)
    (hb : ∀ bits ∈ b, (Float.ofBits bits).isNaN = false)
    (h : a.getD absent = b.getD absent) : a = b := by
  have hne : ∀ bits, (Float.ofBits bits).isNaN = false → bits ≠ absent := by
    rintro bits hbits rfl
    exact absurd isNaN_absent (by rw [hbits]; exact Bool.false_ne_true)
  cases a with
  | none =>
      cases b with
      | none => rfl
      | some v => exact absurd h.symm (hne v (hb v rfl))
  | some u =>
      cases b with
      | none => exact absurd h (hne u (ha u rfl))
      | some v => exact congrArg some h

/-- The queues and the numbers behind them. -/
theorem queues_inj {a b : Imprint} (ha : a.angles.length < 2 ^ 64)
    (hb : b.angles.length < 2 ^ 64)
    (h : (a.angles ++ a.turns).flatMap bytes32 ++
        (littleEndian 8 a.angles.length ++ bytes64 a.ticks) =
      (b.angles ++ b.turns).flatMap bytes32 ++
        (littleEndian 8 b.angles.length ++ bytes64 b.ticks)) :
    a.angles = b.angles ∧ a.turns = b.turns ∧ a.ticks = b.ticks := by
  obtain ⟨hqueues, hbehind⟩ := List.append_inj' h (by
    simp only [List.length_append, length_littleEndian, fixedWidth_bytes64.length])
  obtain ⟨hlength, hticks⟩ := List.append_inj hbehind (by
    rw [length_littleEndian, length_littleEndian])
  have hboth := fixedWidth_bytes32.flatMap_inj (by decide) _ _ hqueues
  obtain ⟨hangles, hturns⟩ := List.append_inj hboth (littleEndian_inj ha hb hlength)
  exact ⟨hangles, hturns, fixedWidth_bytes64.injective _ _ hticks⟩

/-- Imprints with the same bytes are the same: the fields ahead of the queues are read off
one after the other. -/
theorem Imprint.bytes_inj {a b : Imprint} (ha : a.Proper) (hb : b.Proper)
    (h : a.bytes = b.bytes) : a = b := by
  simp only [Imprint.bytes, List.flatMap_cons, List.flatMap_nil, List.append_nil,
    List.append_assoc, List.cons_append, List.nil_append, List.cons.injEq, axisByte_inj,
    flagByte_inj, phaseByte_inj, inertiaModeByte_inj, fixedWidth_bytes16.append_inj,
    fixedWidth_bytes32.append_inj, fixedWidth_bytes64.append_inj] at h
  obtain ⟨haxis, hx, hz, hvx, hvz, hy, hvy, hinertia, hfacing, hgroundSlip, hprevSlip, hterrain,
    hprevTerrain, hprevSprint, hprevSneak, hphase, hmode, hspeed, hslowness, hjumpBoost,
    hprecision, hceilings, hsnaps, hrest⟩ := h
  have hceiling : a.ceiling = b.ceiling := getD_absent_inj ha.ceiling hb.ceiling hceilings
  have hsnap : a.pendingSnap = b.pendingSnap :=
    getD_absent_inj ha.pendingSnap hb.pendingSnap hsnaps
  obtain ⟨hangles, hturns, hticks⟩ := queues_inj ha.angles hb.angles hrest
  cases a
  cases b
  simp_all only

/-- The bytes that a fingerprint is taken of determine every field, bit for bit: those of
any two imprints, and so those of any two players. -/
theorem bytes_eq_iff {a b : Imprint} (ha : a.Proper) (hb : b.Proper) :
    (a.bytes = b.bytes ↔ a = b) ∧
      ∀ p q : Player, p.imprint = a → q.imprint = b → (p.bytes = q.bytes ↔ p = q) := by
  refine ⟨⟨Imprint.bytes_inj ha hb, congrArg _⟩, ?_⟩
  rintro p q rfl rfl
  refine ⟨fun h => imprint_inj (Imprint.bytes_inj ha hb ?_), congrArg _⟩
  rw [← bytes_eq_imprint, ← bytes_eq_imprint, h]

/-- Three numbers are queued in both, but they are not divided in the same way. -/
theorem bytes_eq_iff_queues :
    let p : Player := { axis := .vertical, ceiling := some 3, angles := [1, 2], turns := [3] }
    let q : Player := { axis := .vertical, ceiling := some 3, angles := [1], turns := [2, 3] }
    p.imprint.Proper ∧ q.imprint.Proper ∧ p.bytes ≠ q.bytes := by
  intro p q
  have hthree : ∀ bits ∈ some (3 : Float).toBits, (Float.ofBits bits).isNaN = false := by
    rintro bits ⟨⟩
    decide +kernel
  have hp : p.imprint.Proper := ⟨hthree, nofun, by decide⟩
  have hq : q.imprint.Proper := ⟨hthree, nofun, by decide⟩
  refine ⟨hp, hq, fun h => ?_⟩
  have hsame : p = q := ((bytes_eq_iff hp hq).2 p q rfl rfl).mp h
  exact absurd (congrArg (fun r : Player => r.angles.length) hsame) (by decide)

end Parkour.Player

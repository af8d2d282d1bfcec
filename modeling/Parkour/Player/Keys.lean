/-!
# Movement keys

A call holds a set of the four movement keys, written by their letters in either
case. A key that is named twice is refused, as it is surely a slip.
-/

namespace Parkour.Player

/-- One movement key. -/
inductive Key where
  | forward
  | left
  | back
  | right
deriving DecidableEq, Repr

namespace Key

/-- All keys in the order in which they are written. -/
def all : List Key := [.forward, .left, .back, .right]

/-- The key of a letter in either case. -/
def ofChar? (c : Char) : Option Key :=
  match c.toLower with
  | 'w' => some .forward
  | 'a' => some .left
  | 's' => some .back
  | 'd' => some .right
  | _ => none

/-- The letter of a key. -/
def letter : Key → Char
  | .forward => 'w'
  | .left => 'a'
  | .back => 's'
  | .right => 'd'

/-- The bit of a key in a mask. -/
def bit : Key → Nat
  | .forward => 1
  | .left => 2
  | .back => 4
  | .right => 8

end Key

/-- The keys held during one call. -/
structure Keys where
  /-- The key `w`. -/
  forward : Bool := false
  /-- The key `a`. -/
  left : Bool := false
  /-- The key `s`. -/
  back : Bool := false
  /-- The key `d`. -/
  right : Bool := false
deriving DecidableEq, Repr

/-- Why a text names no set of keys. -/
inductive KeysFault where
  | unknown (c : Char)
  | repeated (c : Char)
deriving DecidableEq, Repr

/-- The wording of a refused text of keys. -/
def KeysFault.message : KeysFault → String
  | .unknown c => s!"'{c}' is not a movement key (expected w, a, s or d)"
  | .repeated c => s!"movement key '{c}' is given twice"

namespace Keys

/-- No key at all. -/
def none : Keys := {}

/-- Whether a key is held. -/
def holds (keys : Keys) : Key → Bool
  | .forward => keys.forward
  | .left => keys.left
  | .back => keys.back
  | .right => keys.right

/-- Holds one more key. -/
def press (keys : Keys) : Key → Keys
  | .forward => { keys with forward := true }
  | .left => { keys with left := true }
  | .back => { keys with back := true }
  | .right => { keys with right := true }

/-- Presses the keys that the letters name, from left to right. -/
def pressAll (keys : Keys) : List Char → Except KeysFault Keys
  | [] => .ok keys
  | c :: cs =>
      match Key.ofChar? c with
      | Option.none => .error (.unknown c)
      | some key => if keys.holds key then .error (.repeated c) else (keys.press key).pressAll cs

/-- Reads a set of keys. -/
def parse (text : String) : Except KeysFault Keys :=
  none.pressAll text.toList

/-- The letters of the held keys, in the order `w`, `a`, `s`, `d`. -/
def display (keys : Keys) : String :=
  String.ofList ((Key.all.filter keys.holds).map Key.letter)

/-- The held keys as a mask. -/
def mask (keys : Keys) : Nat :=
  (Key.all.filter keys.holds).foldl (fun n key => n + key.bit) 0

/-- No key is held. -/
def isEmpty (keys : Keys) : Bool :=
  keys == none

/-- The pull of two opposite keys: they cancel each other. -/
def pull (plus minus : Bool) : Float32 :=
  let held : Float32 := if plus then 1 else 0
  if minus then held - 1 else held

/-- The pull ahead. -/
def ahead (keys : Keys) : Float32 := pull keys.forward keys.back

/-- The pull to the side; the left is positive. -/
def aside (keys : Keys) : Float32 := pull keys.left keys.right

end Keys

end Parkour.Player

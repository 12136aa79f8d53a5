/-!
Sets of characters given as ranges of code points. A range holds both its ends, and each range
lies above the one before it, so a search stops at the first range that starts too high.
-/

namespace YoloLang.Text

abbrev Ranges := List (Nat × Nat)

def Ranges.contains : Ranges → Nat → Bool
  | [], _ => false
  | (low, high) :: rest, n => if n < low then false else n ≤ high || contains rest n

end YoloLang.Text

/-!
# Comparing names without regard to case

Names of levels and backends are plain ASCII and are accepted in any case. Besides the ASCII
capitals, exactly two characters have an ASCII letter as their simple lower case: the capital I
with a dot above (U+0130) and the Kelvin sign (U+212A).
-/

namespace KernelReach.Text

/-- The lower case of `c` where that is an ASCII letter, and otherwise `c`. -/
def lowerChar (c : Char) : Char :=
  if c.toNat == 0x130 then 'i' else if c.toNat == 0x212a then 'k' else c.toLower

/-- `s` with every character lowered that has an ASCII lower case. It equals an ASCII name if and
    only if the full lower case of `s` does. -/
def lower (s : String) : String :=
  String.ofList (s.toList.map lowerChar)

end KernelReach.Text

/-!
# Durations

The text of a duration: whole and broken seconds from one second on, milliseconds below,
and nanoseconds for no time at all.
-/

namespace ShardQuery

/-- The thousandths of a second as the digits after a point, without trailing zeros; empty
for none. -/
def secondFraction (thousandths : Nat) : String :=
  let digits := [thousandths / 100, thousandths / 10 % 10, thousandths % 10]
  let kept := (digits.reverse.dropWhile (· == 0)).reverse
  if kept.isEmpty then "" else "." ++ String.join (kept.map Nat.repr)

/-- The text of a duration in milliseconds, in the largest unit that it fills. -/
def durationText (milliseconds : Nat) : String :=
  if milliseconds = 0 then "0ns"
  else if milliseconds < 1000 then s!"{milliseconds}ms"
  else Nat.repr (milliseconds / 1000) ++ secondFraction (milliseconds % 1000) ++ "s"

end ShardQuery

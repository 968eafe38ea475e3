import StackScript.Native

/-!
# Clock natives

Waiting, the time of day, and stopwatches. A stopwatch is a handle that keeps the time at which it
was started.
-/

namespace StackScript.Native.Clock

/-- The kind of the handles that are stopwatches. -/
def stopwatch : String := "timer"

/-- Waits for some milliseconds. -/
def sleep : Native :=
  takeInt fun ms =>
    if ms < 0 then .fail (.native s!"sleep: negative duration {ms.toInt}")
    else .sleep ms.toInt.toNat .done

/-- The time in milliseconds. -/
def nowMillis : Native := .now fun t => give (.int (Int64.ofInt t))

/-- Starts a stopwatch. -/
def timer : Native := .now fun t => .newHandle stopwatch (some t) fun h => give (.handle h)

/-- The milliseconds since a stopwatch was started. A handle of that kind that was never started
cannot be read. -/
def elapsed : Native :=
  takeHandle stopwatch fun h =>
    match h.started with
    | some t => .now fun now => give (.int (Int64.ofInt (now - t)))
    | none => .crash "interface conversion: interface \x7b\x7d is nil, not time.Time"

/-- The natives of the clock. -/
def natives : List (String × Native) :=
  [("sleep", sleep), ("now_millis", nowMillis), ("timer", timer), ("elapsed", elapsed)]

end StackScript.Native.Clock

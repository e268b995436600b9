import DetectionSystem.Lib.ListSeg
import DetectionSystem.Lib.Fifo
import DetectionSystem.Firmware.Peterson

/-!
# The list of sniffed packets

`wifi_sniffer_packet_handler` fills the empty node at `curr`, links a new empty node behind it and
increments `count`; the timer task takes `count` into `sniff_count` and sends that many nodes from
`head` on, freeing each (`tcp_client_timer_version`, `send_probe_buffer`). There is no lock on the
list. The model takes one statement a step, with the result of each library call (`malloc`,
`socket`, `connect`, `write`) left open; `count++` and the read-and-clear of `count` are the atomic
operations of `Ledger`, which `Peterson.step_refines` shows them to be.

Memory is the data and the `next` pointer of every address, and which addresses are allocated.
`malloc` returns any address that is not, so an address can come back after a `free`. `free` and
the reads do not check that a node is allocated: that they only ever meet allocated nodes is a
theorem of the next module, not a part of the model.
-/

open Transition

namespace DetectionSystem

namespace BufferList

/-- Where the handler is: its next statement. `filling p` is `curr->data = b`, the calls of
`malloc` follow, and `temp` is the new node. -/
inductive HandlerPc (P : Type)
  | idle
  | filling (p : P)
  | malloc
  | clearNext (temp : ℕ)
  | link (temp : ℕ)
  | advance (temp : ℕ)
  | increment
deriving DecidableEq, Repr

/-- Where the timer task is: its next statement, in the attempt `i` of the upload. `counting` sends
the count byte, on a socket that a failed MAC byte has closed or not. In `send_probe_buffer`, `k`
nodes are sent and `ptr` is the next one. -/
inductive SenderPc
  | idle
  | socket (i : ℕ)
  | connect (i : ℕ)
  | mac (i : ℕ)
  | counting (i : ℕ) (closed : Bool)
  | probe (i : ℕ)
  | write (i k : ℕ) (ptr : Option ℕ)
  | readNext (i k : ℕ) (ptr : ℕ)
  | free (i k : ℕ) (ptr : ℕ) (aux_ptr : Option ℕ)
  | setHead (ptr : Option ℕ)
  | ack
deriving DecidableEq, Repr

/-- Memory, the globals and both tasks. `linked` and `sent` record, for the statements only, the
packets in the order in which they were linked into the list and written to the server. -/
structure State (P : Type) where
  data : ℕ → P
  next : ℕ → Option ℕ
  alloc : ℕ → Bool
  head : Option ℕ
  curr : ℕ
  count : ℕ
  sniff_count : ℕ
  handler : HandlerPc P
  sender : SenderPc
  linked : List P
  sent : List P

variable {P : Type}

/-- The state `wifi_sniffer_init` leaves, whatever memory held before: one empty node, at address
`a`. -/
def init (data : ℕ → P) (next : ℕ → Option ℕ) (a : ℕ) : State P where
  data := data
  next := Function.update next a none
  alloc := fun b => b = a
  head := some a
  curr := a
  count := 0
  sniff_count := 0
  handler := .idle
  sender := .idle
  linked := []
  sent := []

/-- The steps. The handler is called with a packet, executes its next statement, or has its
`malloc` answered; the timer task executes its next statement or has its next call fail. -/
inductive Action (P : Type)
  | capture (p : P)
  | handler
  | malloc (a : ℕ)
  | mallocFail
  | sender
  | senderFail
deriving DecidableEq, Repr

/-- The next statement of `wifi_sniffer_packet_handler`. -/
def handlerStep (s : State P) : Option (State P) :=
  match s.handler with
  | .filling p => some { s with data := Function.update s.data s.curr p, handler := .malloc }
  | .clearNext temp =>
    some { s with next := Function.update s.next temp none, handler := .link temp }
  | .link temp =>
    some { s with
      next := Function.update s.next s.curr (some temp)
      handler := .advance temp
      linked := s.linked ++ [s.data s.curr] }
  | .advance temp => some { s with curr := temp, handler := .increment }
  | .increment => some { s with count := (s.count + 1) % 256, handler := .idle }
  | .idle | .malloc => none

/-- The next statement of the timer task, from the timer event on. -/
def senderStep (s : State P) : Option (State P) :=
  match s.sender with
  | .idle => some { s with sniff_count := s.count, count := 0, sender := .socket 0 }
  | .socket i => some { s with sender := .connect i }
  | .connect i => some { s with sender := .mac i }
  | .mac i => some { s with sender := .counting i false }
  | .counting i closed => guarded (closed = false) { s with sender := .probe i }
  | .probe i =>
    -- with nothing to send there is no acknowledgement to read either
    if s.sniff_count = 0 then some { s with sender := .idle }
    else some { s with sender := .write i 0 s.head }
  | .write i k (some ptr) =>
    some { s with sent := s.sent ++ [s.data ptr], sender := .readNext i k ptr }
  | .write _ _ none => none
  | .readNext i k ptr => some { s with sender := .free i k ptr (s.next ptr) }
  | .free i k ptr aux_ptr =>
    some { s with
      alloc := Function.update s.alloc ptr false
      sender := if k + 1 < s.sniff_count then .write i (k + 1) aux_ptr else .setHead aux_ptr }
  | .setHead ptr => some { s with head := ptr, sender := .ack }
  | .ack => some { s with sender := .idle }

/-- What follows a failed attempt: the next one, or the end of the upload after the third. -/
def nextAttempt (i : ℕ) : SenderPc := if i + 1 < 3 then .socket (i + 1) else .idle

/-- The next call of the timer task fails. A failed MAC byte closes the socket, but its `continue`
stays in the loop over the bytes, so the count byte is tried next. -/
def senderFail (s : State P) : Option (State P) :=
  match s.sender with
  | .socket i | .connect i | .counting i _ | .write i _ _ =>
    some { s with sender := nextAttempt i }
  | .mac i => some { s with sender := .counting i true }
  | .idle | .probe _ | .readNext .. | .free .. | .setHead _ | .ack => none

/-- One step. -/
def step (s : State P) : Action P → Option (State P)
  | .capture p =>
    match s.handler with
    | .idle => some { s with handler := .filling p }
    | _ => none
  | .handler => handlerStep s
  | .malloc a =>
    match s.handler with
    | .malloc =>
      guarded (s.alloc a = false)
        { s with alloc := Function.update s.alloc a true, handler := .clearNext a }
    | _ => none
  | .mallocFail =>
    match s.handler with
    | .malloc => some { s with handler := .idle }
    | _ => none
  | .sender => senderStep s
  | .senderFail => senderFail s

/-- `check_list_size`: the nodes from `head` on that have a successor. -/
def check_list_size (s : State P) (fuel : ℕ) : Option ℕ :=
  s.head.bind (ListSeg.size s.next fuel)

end BufferList

end DetectionSystem

import Mathlib.Data.List.Basic

/-! Sends on one connection, one `SEND` at a time. -/

namespace Rmr

/-- The errors that a send tells apart. -/
inductive Errno where
  | eintr | eagain | other
  deriving DecidableEq

/-- What `select` says of the descriptor that is to be written to. -/
inductive Poll where
  /-- It would block, or `select` failed. -/
  | busy
  | exception
  | writable
  deriving DecidableEq

/-- What `SEND` returns. -/
inductive SendRet where
  /-- So many bytes were taken, at most as many as there were. -/
  | taken (count : Nat)
  | failed (errno : Errno)

/-- What `SIsendt` returns, and what it leaves in `errno` with an error. -/
inductive SiReturn where
  | ok
  /-- `SI_ERR_BLOCKED`, with `EBUSY`. -/
  | blocked
  | error (errno : Errno)
  deriving DecidableEq

/-- What `SIsendt` returns once it is past its `select`. -/
inductive SendStatus where
  | ok | error
  deriving DecidableEq

/-- A call of `SIsendt` that is past its `select`. -/
structure Sending where
  ubuf : List UInt8
  sidx : Nat
  /-- Nil while the call is in its loop. -/
  status : Option SendStatus

namespace Sending

/-- What is still to be sent, `ulen` bytes of it. -/
def rest (call : Sending) : List UInt8 := call.ubuf.drop call.sidx

/-- The bytes that one `SEND` takes. -/
def takes (call : Sending) : SendRet → List UInt8
  | .taken count => call.rest.take count
  | .failed _ => []

/-- The call as it enters its loop; with nothing to send it is in error. -/
def enter (ubuf : List UInt8) : Sending where
  ubuf := ubuf
  sidx := 0
  status := if ubuf.length > 0 then none else some .error

/-- One pass of the loop. -/
def pass (call : Sending) (ret : SendRet) : Sending :=
  match ret with
  | .taken _ =>
    let call := { call with sidx := call.sidx + (call.takes ret).length }
    if call.rest.length > 0 then call else { call with status := some .ok }
  | .failed errno =>
    if errno ≠ .eintr ∨ errno ≠ .eagain then { call with status := some .error } else call

/-- The part of the buffer that was sent. -/
def sent (call : Sending) : List UInt8 := call.ubuf.take call.sidx

end Sending

/-- A connection, as far as sends on it are concerned. -/
structure Wire where
  /-- The transport block has the descriptor, and it is one that `select` can be asked about. -/
  up : Bool
  /-- All bytes written on the connection. -/
  bytes : List UInt8
  /-- The calls that got past their `select`, the last one last. -/
  calls : List Sending

/-- What happens to a connection. -/
inductive WireEvent where
  /-- `SIsendt` is called. -/
  | call (ubuf : List UInt8) (poll : Poll)
  /-- A call makes a pass of its loop. -/
  | pass (idx : Nat) (ret : SendRet)
  /-- `SIterm`, when the other side is gone. -/
  | term

namespace Wire

/-- A connection that nothing was sent on. -/
def init : Wire where
  up := true
  bytes := []
  calls := []

/-- `SIsendt` up to its loop: an exception closes the connection. -/
def call (wire : Wire) (ubuf : List UInt8) (poll : Poll) : Wire :=
  if wire.up = false then wire
  else
    match poll with
    | .busy => wire
    | .exception => { wire with up := false }
    | .writable => { wire with calls := wire.calls ++ [Sending.enter ubuf] }

/-- A pass of a call that is in its loop. Without the descriptor nothing is taken. -/
def pass (wire : Wire) (idx : Nat) (ret : SendRet) : Wire :=
  match wire.calls[idx]? with
  | none => wire
  | some call =>
    if call.status ≠ none then wire
    else
      let ret := if wire.up then ret else .failed .other
      { wire with
        bytes := wire.bytes ++ call.takes ret
        calls := wire.calls.set idx (call.pass ret) }

/-- One event. -/
def step (wire : Wire) : WireEvent → Wire
  | .call ubuf poll => wire.call ubuf poll
  | .pass idx ret => wire.pass idx ret
  | .term => { wire with up := false }

/-- Events one after the other. -/
def run (events : List WireEvent) : Wire := events.foldl step init

/-- A call of `SIsendt` on a descriptor that can be written to, after so many passes of its loop. -/
def sendt (wire : Wire) (ubuf : List UInt8) (rets : Nat → SendRet) : Nat → Wire
  | 0 => wire.call ubuf .writable
  | sends + 1 => (wire.sendt ubuf rets sends).pass wire.calls.length (rets sends)

end Wire

end Rmr

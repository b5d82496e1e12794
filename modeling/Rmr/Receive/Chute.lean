import Rmr.Message.Mbuf

/-! A call that waits at its chute for the answer, beside the thread that puts messages there. -/

namespace Rmr

/-- The transaction id: all bytes of the field. -/
def Mbuf.xaction (msg : Mbuf) : List UInt8 := msg.tpBuf.slice HdrField.xid.offset rmrMaxXid

/-- The next thing that `mt_call` does. -/
inductive CallPc where
  /-- It is not called. -/
  | idle
  /-- See if a delayed message is in the chute. -/
  | clearTest
  | clearFree
  | clearNil
  /-- Copy the transaction id of the request. -/
  | expect
  | send
  /-- The test of the loop. -/
  | loopTest
  | wait
  | wakeTest
  | compare
  | dropFree
  | dropNil
  /-- See if the last wait failed. -/
  | exitTest
  | take
  | takeNil
  deriving DecidableEq

/-- What waiting at the semaphore comes to. -/
inductive WaitRet where
  /-- It goes on as soon as there was a post. -/
  | posted
  /-- `EINTR`. -/
  | interrupted
  /-- It timed out, or another error. -/
  | failed
  deriving DecidableEq

/-- The chute of a call id, the thread that calls, and the one that receives. -/
structure CallRun where
  /-- `chute->mbuf`. -/
  mbuf : Option Mbuf
  /-- `chute->expect`. -/
  expect : List UInt8
  /-- `chute->barrier`. -/
  barrier : Nat
  pc : CallPc
  request : Mbuf
  /-- `state < 0`. -/
  failed : Bool
  errno : Bool
  /-- The message that was taken from the chute. -/
  taken : Option Mbuf
  /-- The receive thread has stored a message that it did not post yet. -/
  storing : Bool
  /-- Every response that was returned, with the request that it was returned for. -/
  answers : List (Mbuf × Mbuf)

/-- What happens at the chute. -/
inductive CallEvent where
  /-- An application calls. -/
  | call (request : Mbuf)
  /-- `mt_call` goes on; what sending or waiting comes to if that is next. -/
  | caller (sent : Bool) (wait : WaitRet)
  /-- `buf2mbuf` puts a message into the chute. -/
  | store (msg : Mbuf)
  | post

namespace CallRun

/-- Nobody has called. -/
def init (msg : Mbuf) : CallRun where
  mbuf := none
  expect := []
  barrier := 0
  pc := .idle
  request := msg
  failed := false
  errno := false
  taken := none
  storing := false
  answers := []

/-- `mt_call` goes on. -/
def caller (run : CallRun) (sent : Bool) (wait : WaitRet) : CallRun :=
  match run.pc with
  | .idle => run
  | .clearTest => { run with pc := if run.mbuf = none then .expect else .clearFree }
  | .clearFree => { run with pc := .clearNil }
  | .clearNil => { run with mbuf := none, pc := .expect }
  | .expect => { run with expect := run.request.xaction, pc := .send }
  | .send =>
    -- A message that could not be sent is returned as it is.
    if sent then { run with failed := false, errno := false, pc := .loopTest }
    else { run with pc := .idle }
  | .loopTest =>
    { run with pc := if run.mbuf = none ∧ run.errno = false then .wait else .exitTest }
  | .wait =>
    match wait with
    | .posted =>
      if run.barrier = 0 then run
      else { run with barrier := run.barrier - 1, failed := false, pc := .wakeTest }
    | .interrupted => { run with failed := true, errno := false, pc := .wakeTest }
    | .failed => { run with failed := true, errno := true, pc := .wakeTest }
  | .wakeTest => { run with pc := if run.mbuf = none then .loopTest else .compare }
  | .compare =>
    { run with pc := if run.mbuf.map Mbuf.xaction = some run.expect then .loopTest else .dropFree }
  | .dropFree => { run with pc := .dropNil }
  | .dropNil => { run with mbuf := none, errno := false, pc := .loopTest }
  | .exitTest => { run with pc := if run.failed then .idle else .take }
  | .take => { run with taken := run.mbuf, pc := .takeNil }
  | .takeNil => { run with
    mbuf := none
    pc := .idle
    answers := run.answers ++ (run.taken.map fun msg => (run.request, msg)).toList }

/-- One event. -/
def step (run : CallRun) : CallEvent → CallRun
  | .call request =>
    if run.pc = .idle then { run with request := request, pc := .clearTest } else run
  | .caller sent wait => run.caller sent wait
  | .store msg => if run.storing then run else { run with mbuf := some msg, storing := true }
  | .post =>
    if run.storing then { run with barrier := run.barrier + 1, storing := false } else run

/-- Events one after the other. -/
def run (msg : Mbuf) (events : List CallEvent) : CallRun := events.foldl step (init msg)

end CallRun

end Rmr

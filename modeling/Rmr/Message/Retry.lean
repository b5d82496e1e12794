import Rmr.Message.Pool
import Rmr.Transport.Sendt

/-! The sends that `send_msg` tries, one after the other, and what it makes of their outcomes. -/

namespace Rmr

/-- A call of `SIsendt` that returned: what it returned, and what it wrote. -/
structure SiResult where
  ret : SiReturn
  written : List UInt8

/-- The loop of `SIsendt`, which goes on until all is sent or a `SEND` fails. -/
def siSendLoop (call : Sending) : List SendRet → Option SiResult
  | [] => none
  | ret :: rets =>
    let next := call.pass ret
    match next.status, ret with
    | none, _ => siSendLoop next rets
    | some .ok, _ => some ⟨.ok, next.sent⟩
    | some .error, .failed errno => some ⟨.error errno, next.sent⟩
    | some .error, .taken _ => some ⟨.error .other, next.sent⟩

/-- `SIsendt`: whether there is a block with a descriptor that can be asked about, what `select`
says of it, and what each `SEND` does. -/
def siSendt (open_ : Bool) (poll : Poll) (rets : List SendRet) (ubuf : List UInt8) :
    Option SiResult :=
  if open_ = false then some ⟨.error .other, []⟩
  else
    match poll with
    | .busy => some ⟨.blocked, []⟩
    | .exception => some ⟨.error .other, []⟩
    | .writable =>
      -- With nothing to send it assumed to fail, and `errno` was cleared.
      if ubuf = [] then some ⟨.error .other, []⟩ else siSendLoop (.enter ubuf) rets

/-- What the loop of `send_msg` works with. -/
structure SendTry where
  retries : Int
  spinRetries : Int
  /-- `state`, which is `SI_ERR_BLOCKED` or zero at the end of a pass. -/
  blocked : Bool
  /-- The state of the message is `RMR_OK`. -/
  msgOk : Bool
  errno : Errno
  deriving DecidableEq

namespace SendTry

/-- As the loop is entered. -/
def enter (retries : Int) : SendTry where
  retries := if retries = 0 then 1 else retries
  spinRetries := if retries = 0 then 100 else 1000
  blocked := false
  msgOk := true
  errno := .other

/-- One pass of the loop. -/
def pass (loop : SendTry) (ret : SiReturn) : SendTry :=
  match ret with
  | .ok => { loop with blocked := false, msgOk := true, errno := .other }
  | .blocked =>
    let loop : SendTry := { loop with msgOk := false, errno := .other }
    if 0 < loop.retries then
      if loop.spinRetries - 1 ≤ 0 then
        -- The processor is given up here, if the loop will go on.
        { loop with retries := loop.retries - 1, spinRetries := 1000, blocked := true }
      else { loop with spinRetries := loop.spinRetries - 1, blocked := true }
    else { loop with blocked := false }
  | .error errno => { loop with blocked := false, msgOk := false, errno := errno }

/-- The loop, and how many calls were made when it is left. -/
def loop (rets : Nat → SiReturn) : Nat → Nat → SendTry → Option (SendTry × Nat)
  | 0, _, _ => none
  | fuel + 1, calls, this =>
    let next := this.pass (rets calls)
    if next.blocked ∧ 0 < next.retries then loop rets fuel (calls + 1) next
    else some (next, calls + 1)

/-- What comes of it. -/
def result (loop : SendTry) : SendResult :=
  if loop.msgOk then .ok
  else if loop.blocked ∨ loop.errno = .eagain then .blocked
  else .failed

end SendTry

/-- The state of a message that was sent, or not. -/
def SendResult.state : SendResult → MsgState
  | .ok => .ok
  | .blocked => .retry
  | .failed => .sendFailed

/-- The retry loop of `send_msg`: the state that it reports and the number of calls that it made. -/
def sendTries (retries : Int) (rets : Nat → SiReturn) (fuel : Nat) : Option (MsgState × Nat) :=
  (SendTry.loop rets fuel 0 (SendTry.enter retries)).map fun done => (done.1.result.state, done.2)

/-- The most calls that are made. -/
def triesFor (retries : Int) : Nat :=
  if retries < 0 then 1 else if retries = 0 then 100 else 1000 * retries.toNat

/-- The state reported tells how the calls went. -/
structure Classifies (results : Nat → SiResult) (state : MsgState) (calls : Nat) : Prop where
  success : state = .ok ↔ ∃ call < calls, (results call).ret = .ok
  last : ∀ call < calls, (results call).ret = .ok → call + 1 = calls
  retry : state = .retry ↔ (results (calls - 1)).ret = .blocked
  /-- The message may be sent again, as nothing of it was written. -/
  unwritten : state = .retry → ∀ call < calls, (results call).written = []
  failed : state = .sendFailed ↔ ∃ errno, (results (calls - 1)).ret = .error errno

/-- No error says `EAGAIN`, and a send without retries is not blocked. -/
structure TellsApart (retries : Int) (rets : Nat → SiReturn) : Prop where
  retried : retries < 0 → rets 0 ≠ .blocked
  hard : ∀ call < triesFor retries, (∀ before < call, rets before = .blocked) →
    rets call ≠ .error .eagain

end Rmr

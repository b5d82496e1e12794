import Rmr.Receive.Inbox
import Rmr.Transport.Post

/-! The way of messages from the applications that send them to the threads of the one that receives
them. -/

namespace Rmr

/-- What happens to connections, and at the process that receives from them. -/
inductive MailEvent (conf : SendConf) where
  /-- Something happens at the other end of a connection. -/
  | sender (fd : Int) (event : PostEvent conf)
  /-- `RECV` returns at most so many bytes, and the data callback is entered with them. -/
  | recv (fd : Int) (count : Nat)
  /-- The data callback calls `buf2mbuf` for the next message, up to the post of `queue_normal`. -/
  | deliver
  /-- `sem_post` -/
  | post
  /-- An application calls `rmr_mt_rcv`. -/
  | mtRcv (thread : Nat) (mbuf : Option Mbuf) (maxWait : Int)
  /-- A thread that receives goes on. -/
  | receiver (thread : Nat) (ret : SemRet)

/-- Connections, each with a descriptor of the receiver, and the receiver. Only the receive thread
uses a river, so that what the data callback makes of the bytes is there when it was entered. -/
structure Mail (conf : SendConf) where
  posts : Int → Post conf
  /-- What `RECV` returned so far. -/
  chunks : List (Int × List UInt8)
  rcv : Rcv
  /-- The calls of `buf2mbuf` that the data callback has yet to make. -/
  pending : List Call
  /-- What became of each message, and what it came on. -/
  log : List (Int × Outcome)
  inbox : Inbox

namespace Mail

variable {conf : SendConf}

/-- Nothing was sent. -/
def init (conf : SendConf) (threads : Nat) : Mail conf where
  posts := fun _ => .init conf
  chunks := []
  rcv := .init
  pending := []
  log := []
  inbox := .init threads

/-- The bytes that `RECV` returns: what comes next on the connection, as far as there is room. -/
def next (mail : Mail conf) (fd : Int) (count : Nat) : List UInt8 :=
  ((mail.posts fd).wire.bytes.drop (received mail.chunks fd).length).take (min count maxRbuf)

/-- What `buf2mbuf` comes to for a message. -/
def settle (mail : Mail conf) (call : Call) : Delivery → Mail conf
  | .dropped => { mail with log := mail.log ++ [(call.fd, .dropped)] }
  | .normal mbuf =>
    { mail with
      inbox := mail.inbox.step (.queue mbuf)
      log := mail.log ++ [(call.fd,
        if mail.inbox.queue.mring.length < mringRoom then .queued mbuf else .full)] }
  | .chute callId mbuf => { mail with log := mail.log ++ [(call.fd, .chute callId mbuf)] }

/-- One event. -/
def step (rcvConf : RcvConf) (left : Leftover) (mail : Mail conf) :
    MailEvent conf → Except Fault (Mail conf)
  | .sender fd event =>
    .ok { mail with posts := Function.update mail.posts fd ((mail.posts fd).step event) }
  | .recv fd count =>
    -- The receive thread is not in the data callback, and there is something to read.
    if mail.pending = [] ∧ mail.inbox.queue.posting = false ∧ 0 ≤ fd ∧
    mail.next fd count ≠ [] then do
      let rcv ← mail.rcv.mtDataCb rcvConf left fd (mail.next fd count)
      return { mail with
        chunks := mail.chunks ++ [(fd, mail.next fd count)]
        rcv := rcv
        pending := mail.rcv.handed rcv }
    else .ok mail
  | .deliver =>
    match mail.pending with
    | [] => .ok mail
    | call :: pending =>
      if mail.inbox.queue.posting then .ok mail
      else do
        let delivery ← buf2mbuf rcvConf call.rawMsg call.msgSize call.fd
        return { mail with pending := pending }.settle call delivery
  | .post => .ok { mail with inbox := mail.inbox.step .post }
  | .mtRcv thread mbuf maxWait =>
    .ok { mail with inbox := mail.inbox.step (.mtRcv thread mbuf maxWait) }
  | .receiver thread ret => .ok { mail with inbox := mail.inbox.step (.receiver thread ret) }

/-- Events one after the other. -/
def run (rcvConf : RcvConf) (left : Leftover) (threads : Nat) (events : List (MailEvent conf)) :
    Except Fault (Mail conf) :=
  events.foldlM (step rcvConf left) (init conf threads)

/-- What is asked of an event: calls of `SIsendt` on one connection do not disturb each other, and a
frame is counted by an `int` with room for what comes with it. -/
def Careful (mail : Mail conf) : MailEvent conf → Prop
  | .sender fd event => (mail.posts fd).wire.Undisturbed event.wire ∧
    match event with
    | .send letter _ => ((letter.frame.length + maxRbuf : Nat) : Int) ≤ intMax
    | _ => True
  | _ => True

end Mail

/-- The message that was queued. -/
def Outcome.queued? : Outcome → Option Mbuf
  | .queued mbuf => some mbuf
  | _ => none

/-- What became of a message: unless the ring was full, there is a message that says the same. -/
def Outcome.Tells {conf : SendConf} (rcvConf : RcvConf) (outcome : Outcome)
    (letter : Letter conf) : Prop :=
  match outcome with
  | .dropped => False
  | .full => True
  | .queued mbuf => mbuf.content rcvConf.order = letter.content
  | .chute _ mbuf => mbuf.content rcvConf.order = letter.content

end Rmr

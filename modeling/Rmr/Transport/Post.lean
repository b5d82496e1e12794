import Rmr.Proofs.Message.Fidelity
import Rmr.Proofs.Transport.Aligned

/-! Messages that are sent on a connection, from the application that composes them to the one that
gets them. -/

namespace Rmr

/-- A message that is composed with room for everything, and its frame. -/
structure Letter (conf : SendConf) where
  left : Leftover
  source : Source
  ops : List MsgOp
  frame : List UInt8
  composes : Composes conf left source ops
  sent : (compose conf left source ops >>= fun draft => sendMsg conf draft.msg) = .ok frame

/-- What the message says. -/
def Letter.content {conf : SendConf} (letter : Letter conf) : Content :=
  (letter.source.first ++ letter.ops).foldl Content.apply (initialContent conf letter.left)

/-- What happens to a connection that messages are sent on. -/
inductive PostEvent (conf : SendConf) where
  /-- `SIsendt` is called with the frame of a message. -/
  | send (letter : Letter conf) (poll : Poll)
  | pass (idx : Nat) (ret : SendRet)
  | term

/-- The event of the connection. -/
def PostEvent.wire {conf : SendConf} : PostEvent conf → WireEvent
  | .send letter poll => .call letter.frame poll
  | .pass idx ret => .pass idx ret
  | .term => .term

/-- A connection, and the message of each call that got past its `select`. -/
structure Post (conf : SendConf) where
  wire : Wire
  letters : List (Letter conf)

namespace Post

variable {conf : SendConf}

/-- Nothing was sent. -/
def init (conf : SendConf) : Post conf := ⟨.init, []⟩

/-- One event. -/
def step (post : Post conf) (event : PostEvent conf) : Post conf where
  wire := post.wire.step event.wire
  letters :=
    match event with
    | .send letter .writable => if post.wire.up then post.letters ++ [letter] else post.letters
    | _ => post.letters

/-- Events one after the other. -/
def run (events : List (PostEvent conf)) : Post conf := events.foldl step (init conf)

/-- The messages that `SIsendt` returned success for. -/
def accepted (post : Post conf) : List (Letter conf) :=
  ((post.letters.zip post.wire.calls).filter fun pair => pair.2.status = some .ok).map Prod.fst

end Post

/-- `MAX_RBUF`: what `RECV` has room for. -/
def maxRbuf : Nat := 8192

/-- A call of `buf2mbuf` makes a message that says what was sent. -/
def Call.Delivers {conf : SendConf} (rcvConf : RcvConf) (call : Call) (letter : Letter conf) :
    Prop :=
  ∃ delivery mbuf, buf2mbuf rcvConf call.rawMsg call.msgSize call.fd = .ok delivery ∧
    delivery.mbuf? = some mbuf ∧ mbuf.content rcvConf.order = letter.content

end Rmr

import Rmr.Text.Scan
import Rmr.Transport.Endpoint
import Rmr.Transport.Session

/-! Endpoints, the threads that link them and send to them, and the sessions that the messages go
out on. -/

namespace Rmr

/-- What a thread that sends has in hand, when it is not linking an endpoint. -/
inductive Hand where
  | empty
  /-- It found an endpoint open, and copies its descriptor next. -/
  | reads (ep : Nat)
  /-- It has a descriptor to send on, that of an endpoint or the one that a message came with, and
  `send_msg` calls `SIsendt` with it, perhaps again and again. -/
  | holds (ep : Option Nat) (sock : Int)
  /-- It is in `SIsendt` past `select`, with the block that was found. -/
  | writes (ep : Option Nat) (sock : Int) (blk : Nat)
  /-- It is in `SIterm`, which `SIsendt` called, and closed the descriptor. -/
  | terms (blk : Nat)
  deriving DecidableEq

/-- The descriptor that a thread sends on. -/
def Hand.sock : Hand → Option Int
  | .holds _ sock | .writes _ sock _ => some sock
  | .empty | .reads _ | .terms _ => none

/-- What `SIwait` does about a session whose other side is gone. -/
inductive Closing where
  | idle
  /-- In `mt_disc_cb`, or back from it. -/
  | callback (blk : Nat)
  /-- In `SIterm`, which closed the descriptor. -/
  | closed (blk : Nat)
  deriving DecidableEq

/-- Bytes that were written: the name of the endpoint that they were for, unless they went back on
the descriptor that a message came with, and the session that got them. -/
structure Written where
  name : Option CStr
  session : Nat

/-- A descriptor that `SIterm` closed for a block, and the session that it belonged to. -/
structure Closed where
  own : Nat
  session : Option Nat

/-- The endpoints of a process with the threads that link them, over its sessions. -/
structure Net where
  links : Links
  /-- The names of the endpoints, in the order in which they were made. -/
  eps : List CStr
  hands : List Hand
  si : Si
  closing : Closing
  /-- The name that a session was established to by `SIconnect`; nil if it was accepted. -/
  peer : Nat → Option CStr
  written : List Written
  closed : List Closed

/-- What happens in the process. The operating system gives out any descriptor that is not open. -/
inductive NetEvent where
  /-- `rt_ensure_ep`. -/
  | ensure (name : CStr)
  /-- A thread looks if an endpoint is open, to send to it. -/
  | look (thread ep : Nat) (adds : Bool)
  /-- A thread goes on in `uta_link2`, or after it; what `SIconnect` returns if that is next. -/
  | link (thread : Nat) (fd : Option Nat)
  /-- A thread copies the descriptor of an endpoint that it found open. -/
  | read (thread : Nat)
  /-- A thread takes the descriptor that a message came with. -/
  | take (thread : Nat) (sock : Int)
  /-- A thread calls `SIsendt` or goes on in it: what `select` says, what `SEND` returns, and if
  there is more to send then. -/
  | sendt (thread : Nat) (poll : Poll) (ret : SendRet) (more : Bool)
  /-- A thread is through with `send_msg`, or does not get to it. -/
  | leave (thread : Nat)
  /-- `SInewsession`. -/
  | accept (fd : Nat)
  /-- `SIwait` finds that the other side of a session is gone, and calls `mt_disc_cb`. -/
  | disc (blk : Nat)
  /-- `SIwait` goes on with that. -/
  | wait
  /-- `SIbldpoll` removes a block that is marked. -/
  | remove (blk : Nat)

namespace Net

/-- Some threads, and nothing connected; `rt_ensure_ep` leaves in `nn_sock` what it finds there. -/
def init (fd threads : Nat) (nnSock : Nat → Int) : Net where
  links := Links.init threads nnSock
  eps := []
  hands := List.replicate threads .empty
  si := Si.init fd
  closing := .idle
  peer := fun _ => none
  written := []
  closed := []

/-- The net with something else in a thread's hand. -/
def hold (net : Net) (thread : Nat) (hand : Hand) : Net :=
  { net with hands := net.hands.set thread hand }

/-- A thread neither links an endpoint nor sends to one. -/
def Free (net : Net) (thread : Nat) : Prop :=
  net.links.senders[thread]? = some .idle ∧ net.hands[thread]? = some .empty

instance decidableFree (net : Net) (thread : Nat) : Decidable (net.Free thread) :=
  inferInstanceAs (Decidable (_ ∧ _))

/-- `rt_ensure_ep`, which refuses an empty name. -/
def ensure (net : Net) (name : CStr) : Net :=
  if name = [] ∨ name ∈ net.eps then net else { net with eps := net.eps ++ [name] }

/-- A thread looks if an endpoint is open. `uta_link2` returns at once if its name has no port. -/
def look (net : Net) (thread ep : Nat) (adds : Bool) : Net :=
  match net.eps[ep]? with
  | none => net
  | some name =>
    if net.Free thread then
      if net.links.isOpen ep then net.hold thread (.reads ep)
      else if ':' ∈ name then { net with links := net.links.step (.begin_ thread ep adds) }
      else net
    else net

/-- A thread goes on in `uta_link2` and the function that called it. -/
def link (net : Net) (thread : Nat) (fd : Option Nat) : Net :=
  match net.links.senders[thread]? with
  | none => net
  | some (.connect ep _) =>
    match fd with
    | none => { net with links := net.links.step (.sender thread none) }
    | some fd =>
      if net.si.os fd ≠ none then net
      else { net with
        links := net.links.step (.sender thread (some fd))
        si := net.si.open_ fd
        peer := Function.update net.peer net.si.nextSession net.eps[ep]? }
  -- The caller of `uta_link2` is given the descriptor that the endpoint has now.
  | some (.readSock ep _) =>
    { net with links := net.links.step (.sender thread none) }.hold thread
      (.holds (some ep) (net.links.nnSock ep))
  | some _ => { net with links := net.links.step (.sender thread none) }

/-- A thread copies the descriptor of an endpoint that it found open, whatever that is by now. -/
def read (net : Net) (thread : Nat) : Net :=
  match net.hands[thread]? with
  | some (.reads ep) => net.hold thread (.holds (some ep) (net.links.nnSock ep))
  | _ => net

/-- `SIterm` up to where the descriptor of a block is closed. -/
def close (net : Net) (blk fd : Nat) : Net :=
  { net with
    links := { net.links with live := Function.update net.links.live fd false }
    si := net.si.shut fd
    closed := net.closed ++ ((net.si.blks blk).map fun tpptr =>
      ⟨tpptr.session, net.si.os fd⟩).toList }

/-- What `SIsendt` finds for a descriptor. -/
def target (net : Net) (sock : Int) : Option (Nat × Nat) :=
  if sock < 0 then none else net.si.target sock.toNat

/-- `SIsendt` with the descriptor in a thread's hand, and what it returns if it is done. -/
def call (net : Net) (thread : Nat) (ep : Option Nat) (sock : Int) (poll : Poll) :
    Net × Option SiReturn :=
  match net.target sock with
  | none => (net.hold thread .empty, some (.error .other))
  | some (blk, fd) =>
    match poll with
    -- The caller may try again with the descriptor that it has.
    | .busy => (net, some .blocked)
    | .exception => ((net.close blk fd).hold thread (.terms blk), none)
    | .writable => (net.hold thread (.writes ep sock blk), none)

/-- One `SEND`, with the descriptor that the block has now. Without one it fails. -/
def send (net : Net) (thread : Nat) (ep : Option Nat) (blk : Nat) (ret : SendRet) (more : Bool) :
    Net × Option SiReturn :=
  match (net.si.fdOf blk).bind net.si.os with
  | none => (net.hold thread .empty, some (.error .other))
  | some session =>
    match ret with
    | .failed errno => (net.hold thread .empty, some (.error errno))
    | .taken _ =>
      let net := { net with
        written := net.written ++ [⟨ep.bind fun ep => net.eps[ep]?, session⟩] }
      if more then (net, none) else (net.hold thread .empty, some .ok)

/-- A thread goes on in `SIsendt`, or calls it. -/
def sendt (net : Net) (thread : Nat) (poll : Poll) (ret : SendRet) (more : Bool) :
    Net × Option SiReturn :=
  match net.hands[thread]? with
  | some (.holds ep sock) =>
    if net.links.senders[thread]? = some .idle then net.call thread ep sock poll else (net, none)
  | some (.writes ep _ blk) => net.send thread ep blk ret more
  | some (.terms blk) =>
    ({ net with si := net.si.mark blk }.hold thread .empty, some (.error .other))
  | _ => (net, none)

/-- A thread is through with `send_msg`. -/
def leave (net : Net) (thread : Nat) : Net :=
  match net.hands[thread]? with
  | some (.holds _ _) =>
    if net.links.senders[thread]? = some .idle then net.hold thread .empty else net
  | _ => net

/-- `SInewsession`. -/
def newsession (net : Net) (fd : Nat) : Net :=
  if net.closing ≠ .idle ∨ net.si.os fd ≠ none then net
  else { net with
    links := net.links.step (.accept fd)
    si := net.si.open_ fd }

/-- `SIwait` up to where `mt_disc_cb` has looked the descriptor up. -/
def disc (net : Net) (blk : Nat) : Net :=
  match net.si.blks blk with
  | none => net
  | some tpptr =>
    if net.closing ≠ .idle ∨ blk ∉ net.si.tplist ∨ tpptr.listener then net
    else
      match tpptr.fd with
      | none => net
      | some fd => { net with
        links := { net.links with disc := net.links.lost fd }
        closing := .callback blk }

/-- `SIwait` goes on in `mt_disc_cb`, and then in `SIterm`. -/
def wait (net : Net) : Net :=
  match net.closing with
  | .idle => net
  | .callback blk =>
    match net.links.disc with
    | .term _ =>
      let net := { net with links := { net.links with disc := .idle } }
      match net.si.fdOf blk with
      | none => { net with si := net.si.mark blk, closing := .idle }
      | some fd => { net.close blk fd with closing := .closed blk }
    | _ => { net with links := net.links.receiver }
  | .closed blk => { net with si := net.si.mark blk, closing := .idle }

/-- One event. -/
def step (net : Net) : NetEvent → Net
  | .ensure name => net.ensure name
  | .look thread ep adds => net.look thread ep adds
  | .link thread fd => net.link thread fd
  | .read thread => net.read thread
  | .take thread sock => if net.Free thread then net.hold thread (.holds none sock) else net
  | .sendt thread poll ret more => (net.sendt thread poll ret more).1
  | .leave thread => net.leave thread
  | .accept fd => net.newsession fd
  | .disc blk => net.disc blk
  | .wait => net.wait
  | .remove blk => if net.closing = .idle then { net with si := net.si.remove blk } else net

/-- Events one after the other, in a process of some threads that listens on a descriptor. -/
def run (fd threads : Nat) (nnSock : Nat → Int) (events : List NetEvent) : Net :=
  events.foldl step (init fd threads nnSock)

end Net

end Rmr

import Mathlib.Logic.Function.Basic

/-! Endpoints that threads connect while the receive thread marks others as disconnected. -/

namespace Rmr

/-- Who has the gate of an endpoint. -/
inductive Holder where
  | sender (thread : Nat)
  | receiver
  deriving DecidableEq

/-- The next thing that a sender does for an endpoint, in `uta_link2` or the function that called
it. `uta_epsock_byname` and `uta_epsock_rr` map the descriptor again themselves (`adds`),
`epsock_meid` does not. -/
inductive LinkPc where
  | idle
  | lock (ep : Nat) (adds : Bool)
  /-- See if the endpoint is open now. -/
  | check (ep : Nat) (adds : Bool)
  | connect (ep : Nat) (adds : Bool)
  /-- Put the descriptor that `SIconnect` returned into the endpoint. -/
  | assign (ep : Nat) (adds : Bool) (fd : Int)
  | setOpen (ep : Nat) (adds : Bool)
  | add (ep : Nat) (adds : Bool)
  | unlock (ep : Nat) (adds : Bool)
  /-- There is no connection. -/
  | giveUp (ep : Nat)
  /-- From here on in the function that called `uta_link2`, without the gate. -/
  | openAgain (ep : Nat) (adds : Bool)
  | readSock (ep : Nat) (adds : Bool)
  | addAgain (ep : Nat)
  deriving DecidableEq

/-- The next thing that the receive thread does for a session whose other side is gone. -/
inductive DiscPc where
  | idle
  /-- In `fd2ep_del`, which found the endpoint. -/
  | del (fd : Int) (ep : Nat)
  | lock (fd : Int) (ep : Nat)
  | setShut (fd : Int) (ep : Nat)
  | revoke (fd : Int) (ep : Nat)
  | unlock (fd : Int) (ep : Nat)
  /-- `mt_disc_cb` is done, and the session is closed. -/
  | term (fd : Int)
  deriving DecidableEq

/-- All endpoints, each at an address of its own, and all threads that work on them. -/
structure Links where
  /-- `ep->open`. -/
  isOpen : Nat → Bool
  /-- `ep->nn_sock`. -/
  nnSock : Nat → Int
  gate : Nat → Option Holder
  fd2ep : Int → Option Nat
  /-- The descriptors of sessions. -/
  live : Int → Bool
  senders : List LinkPc
  disc : DiscPc

/-- What happens. -/
inductive LinksEvent where
  /-- A thread that wants to send sees if the endpoint is open. -/
  | begin_ (thread : Nat) (ep : Nat) (adds : Bool)
  /-- A thread goes on; what `SIconnect` returns if that is next. -/
  | sender (thread : Nat) (fd : Option Int)
  /-- Somebody connects to this program. -/
  | accept (fd : Int)
  /-- The other side of a session is gone: `mt_disc_cb` looks its descriptor up. -/
  | disc (fd : Int)
  /-- The receive thread goes on. -/
  | receiver

namespace Links

/-- Nothing is connected; `rt_ensure_ep` leaves in `nn_sock` what it finds there. -/
def init (threads : Nat) (nnSock : Nat → Int) : Links where
  isOpen := fun _ => false
  nnSock := nnSock
  gate := fun _ => none
  fd2ep := fun _ => none
  live := fun _ => false
  senders := List.replicate threads .idle
  disc := .idle

/-- The links with a thread at another place. -/
def goTo (links : Links) (thread : Nat) (pc : LinkPc) : Links :=
  { links with senders := links.senders.set thread pc }

/-- The operating system gives out a descriptor that is not in use. -/
def isFree (links : Links) (fd : Int) : Bool := 0 ≤ fd && !links.live fd

/-- `fd2ep_add`, with the descriptor that is in the endpoint now. -/
def fd2epAdd (links : Links) (ep : Nat) : Links :=
  { links with fd2ep := Function.update links.fd2ep (links.nnSock ep) (some ep) }

/-- `SIconnect`: a new descriptor that goes into the endpoint next, or -1 that goes there now. -/
def connect (links : Links) (thread ep : Nat) (adds : Bool) : Option Int → Links
  | none => { links with nnSock := Function.update links.nnSock ep (-1) }.goTo thread (.giveUp ep)
  | some fd =>
    if links.isFree fd then
      { links with live := Function.update links.live fd true }.goTo thread (.assign ep adds fd)
    else links

/-- A sender at a place goes on from there. -/
def sender (links : Links) (thread : Nat) (fd : Option Int) : LinkPc → Links
  | .idle => links
  | .lock ep adds =>
    if links.gate ep = none then
      { links with gate := Function.update links.gate ep (some (.sender thread)) }.goTo thread
        (.check ep adds)
    else links
  | .check ep adds =>
    links.goTo thread (if links.isOpen ep then .unlock ep adds else .connect ep adds)
  | .connect ep adds => links.connect thread ep adds fd
  | .assign ep adds fd =>
    { links with nnSock := Function.update links.nnSock ep fd }.goTo thread (.setOpen ep adds)
  | .setOpen ep adds =>
    { links with isOpen := Function.update links.isOpen ep true }.goTo thread (.add ep adds)
  | .add ep adds => (links.fd2epAdd ep).goTo thread (.unlock ep adds)
  | .unlock ep adds =>
    { links with gate := Function.update links.gate ep none }.goTo thread (.openAgain ep adds)
  | .giveUp ep => { links with gate := Function.update links.gate ep none }.goTo thread .idle
  | .openAgain ep adds =>
    { links with isOpen := Function.update links.isOpen ep true }.goTo thread (.readSock ep adds)
  | .readSock ep adds => links.goTo thread (if adds then .addAgain ep else .idle)
  | .addAgain ep => (links.fd2epAdd ep).goTo thread .idle

/-- Where `mt_disc_cb` goes with a descriptor that it finds mapped, or not. -/
def lost (links : Links) (fd : Int) : DiscPc :=
  match links.fd2ep fd with
  | some ep => .del fd ep
  | none => .term fd

/-- The receive thread goes on. -/
def receiver (links : Links) : Links :=
  match links.disc with
  | .idle => links
  | .del fd ep => { links with fd2ep := Function.update links.fd2ep fd none, disc := .lock fd ep }
  | .lock fd ep =>
    if links.gate ep = none then
      { links with
        gate := Function.update links.gate ep (some .receiver)
        disc := .setShut fd ep }
    else links
  | .setShut fd ep =>
    { links with isOpen := Function.update links.isOpen ep false, disc := .revoke fd ep }
  | .revoke fd ep =>
    { links with nnSock := Function.update links.nnSock ep (-1), disc := .unlock fd ep }
  | .unlock fd ep =>
    { links with gate := Function.update links.gate ep none, disc := .term fd }
  | .term fd => { links with live := Function.update links.live fd false, disc := .idle }

/-- One event. -/
def step (links : Links) : LinksEvent → Links
  | .begin_ thread ep adds =>
    if links.senders[thread]? = some .idle ∧ links.isOpen ep = false then
      links.goTo thread (.lock ep adds)
    else links
  | .sender thread fd =>
    match links.senders[thread]? with
    | some pc => links.sender thread fd pc
    | none => links
  | .accept fd =>
    if links.isFree fd then { links with live := Function.update links.live fd true } else links
  | .disc fd =>
    if links.disc = .idle ∧ links.live fd then
      { links with disc := links.lost fd }
    else links
  | .receiver => links.receiver

end Links

end Rmr

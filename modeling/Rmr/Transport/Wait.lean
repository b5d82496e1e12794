import Rmr.Transport.Session

/-! The loop of the receive thread, beside senders that open and close sessions. -/

namespace Rmr

/-- Where `SIwait` is. -/
inductive WaitPc where
  /-- Before `SIbldpoll`. -/
  | top
  /-- In `SIbldpoll`, with the blocks that are still to be looked at. -/
  | build (todo : List Nat)
  /-- Before the blocks are looked at for which `select` returned. -/
  | ready
  /-- Looking at them. -/
  | serve (todo : List Nat)
  /-- Receiving on a descriptor that has nothing to receive. -/
  | stuck
  /-- At the end of the loop. -/
  | bottom
  /-- Past the loop. -/
  | left
  deriving DecidableEq

/-- What `select` returns when all descriptors in its sets are open. -/
inductive SelectRet where
  | interrupted
  /-- Which of the descriptors can be read from, and which have an exception. -/
  | done (reads : Nat → Bool) (excepts : Nat → Bool)

/-- What comes of a block that can be read from. The last part is whether a callback asks to stop.
-/
inductive ServeRet where
  /-- A session was accepted on a descriptor, or none was. -/
  | accepted (fd : Option Nat)
  | data (quit : Bool)
  /-- There is nothing to read, so the other side is gone. -/
  | gone (quit : Bool)

/-- The receive thread and the state that it shares with senders. -/
structure Waiter where
  si : Si
  pc : WaitPc
  readfds : List Nat
  execpfds : List Nat
  /-- `GIF_SHUTDOWN`. -/
  shutdown : Bool
  /-- Blocks that senders are in the midst of `SIterm` for. -/
  terming : List Nat
  /-- A callback asked to stop. This and what follows are not in the code. -/
  asked : Bool
  /-- All descriptors that were put into the sets this time. -/
  polled : List Nat
  /-- The sessions that `select` returned for. -/
  loaded : List Nat
  /-- The blocks that there is something to read for, and those that it was read for. -/
  due : List Nat
  served : List Nat
  /-- The blocks that were there when `SIbldpoll` was called, and an address beyond all of them. -/
  listed : List Nat
  bound : Nat

/-- What happens to the receive thread and beside it. -/
inductive WaitEvent where
  /-- A sender connects. -/
  | connect (fd : Nat)
  /-- `SIsendt` finds an exception, and closes the descriptor in `SIterm`. -/
  | close (fd : Nat)
  /-- A sender goes on in `SIterm`. -/
  | mark (blk : Nat)
  /-- The receive thread goes on, and calls `select` with a return, or serves a block with another.
  -/
  | wait (select : SelectRet) (serve : ServeRet)

namespace Waiter

/-- The loop is entered with a listener only. -/
def init (fd : Nat) : Waiter where
  si := Si.init fd
  pc := .top
  readfds := []
  execpfds := []
  shutdown := false
  terming := []
  asked := false
  polled := []
  loaded := []
  due := []
  served := []
  listed := []
  bound := 0

/-- A descriptor goes into the sets. -/
def poll (wtr : Waiter) (fd : Nat) : Waiter :=
  { wtr with
    readfds := fd :: wtr.readfds
    execpfds := fd :: wtr.execpfds
    polled := fd :: wtr.polled }

/-- `SIbldpoll` looks at one block. -/
def bldpoll (wtr : Waiter) (blk : Nat) : Waiter :=
  match wtr.si.blks blk with
  | none => wtr
  | some tpptr =>
    if tpptr.deleted then { wtr with si := wtr.si.remove blk }
    else
      match tpptr.fd with
      | none => wtr
      | some fd => wtr.poll fd

/-- `select`, which fails if a descriptor is not open. -/
def select (wtr : Waiter) (ret : SelectRet) : Waiter :=
  if ∃ fd ∈ wtr.execpfds, wtr.si.os fd = none then { wtr with shutdown := true, pc := .bottom }
  else
    match ret with
    | .interrupted => { wtr with pc := .bottom }
    | .done reads excepts =>
      let readfds := wtr.readfds.filter reads
      let execpfds := wtr.execpfds.filter excepts
      { wtr with
        readfds := readfds
        execpfds := execpfds
        loaded := readfds.filterMap wtr.si.os
        pc := if 0 < readfds.length + execpfds.length ∧ wtr.shutdown = false then .ready
          else .bottom }

/-- There is something to read for a block, as far as the sets say. -/
def isDue (wtr : Waiter) (blk : Nat) : Bool :=
  match wtr.si.fdOf blk with
  | none => false
  | some fd => fd ∈ wtr.readfds ∧ fd ∉ wtr.execpfds

/-- `SIcbstat`. -/
def cbstat (wtr : Waiter) (quit : Bool) : Waiter :=
  { wtr with shutdown := wtr.shutdown || quit, asked := wtr.asked || quit }

/-- What is done for a block that can be read from. -/
def receive (wtr : Waiter) (blk : Nat) (tpptr : TpBlk) (ret : ServeRet) : Waiter :=
  let wtr := { wtr with served := wtr.served ++ [blk] }
  if tpptr.listener then
    match ret with
    | .accepted (some fd) =>
      if wtr.si.os fd ≠ none then wtr else { wtr with si := wtr.si.open_ fd }
    | _ => wtr
  else
    match ret with
    | .data quit => wtr.cbstat quit
    | .gone quit => { wtr.cbstat quit with si := wtr.si.term blk }
    | .accepted _ => wtr

/-- One block is looked at. -/
def serve (wtr : Waiter) (blk : Nat) (todo : List Nat) (ret : ServeRet) : Waiter :=
  match wtr.si.blks blk with
  | none => { wtr with pc := .serve todo }
  | some tpptr =>
    if wtr.isDue blk = false then { wtr with pc := .serve todo }
    else if tpptr.session ∉ wtr.loaded then { wtr with pc := .stuck }
    else { wtr.receive blk tpptr ret with pc := .serve todo }

/-- The receive thread goes on. -/
def wait (wtr : Waiter) (select : SelectRet) (serve : ServeRet) : Waiter :=
  match wtr.pc with
  | .top => { wtr with
    readfds := []
    execpfds := []
    polled := []
    due := []
    served := []
    listed := wtr.si.tplist
    bound := wtr.si.nextBlk
    pc := .build wtr.si.tplist }
  | .build (blk :: todo) => { wtr.bldpoll blk with pc := .build todo }
  | .build [] => wtr.select select
  | .ready => { wtr with due := wtr.si.tplist.filter wtr.isDue, pc := .serve wtr.si.tplist }
  | .serve (blk :: todo) => wtr.serve blk todo serve
  | .serve [] => { wtr with pc := .bottom }
  | .bottom => { wtr with
    pc := if wtr.si.tplist ≠ [] ∧ wtr.shutdown = false then .top else .left }
  | .stuck => wtr
  | .left => wtr

/-- The exception path of `SIsendt`, up to the middle of `SIterm`. -/
def close (wtr : Waiter) (fd : Nat) : Waiter :=
  match wtr.si.target fd with
  | none => wtr
  | some (blk, fd) => { wtr with si := wtr.si.shut fd, terming := blk :: wtr.terming }

/-- One event. -/
def step (wtr : Waiter) : WaitEvent → Waiter
  | .connect fd =>
    if wtr.si.os fd ≠ none then wtr else { wtr with si := wtr.si.open_ fd }
  | .close fd => wtr.close fd
  | .mark blk =>
    if blk ∈ wtr.terming then
      { wtr with si := wtr.si.mark blk, terming := wtr.terming.erase blk }
    else wtr
  | .wait select serve => wtr.wait select serve

/-- Events one after the other. -/
def run (fd : Nat) (events : List WaitEvent) : Waiter := events.foldl step (init fd)

end Waiter

end Rmr

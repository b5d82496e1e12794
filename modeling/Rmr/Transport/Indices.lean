import Rmr.Lib.Traced
import Rmr.Transport.Blocks

/-! The transport while `SIwait` runs, and the indices that it uses. -/

namespace Rmr

/-- An index that is used. -/
inductive Use where
  /-- Into `tp_map`. -/
  | map (fd : Int)
  /-- Into a set for `select`, by `FD_SET` or `FD_ISSET`. -/
  | set (fd : Int)
  deriving DecidableEq

/-- There is an element with that index. -/
def Use.InRange : Use → Prop
  | .map fd => 0 ≤ fd ∧ fd < maxFds
  | .set fd => 0 ≤ fd ∧ fd < fdSetsize

instance decidableInRange : (use : Use) → Decidable use.InRange
  | .map _ | .set _ => inferInstanceAs (Decidable (_ ∧ _))

/-- A call that uses indices. -/
abbrev Uses := Traced Use Fault

/-- `fd_set`. -/
abbrev FdSet := Int → Bool

namespace FdSet

/-- `FD_ZERO`. -/
def zero : FdSet := fun _ => false

/-- `FD_SET`. -/
def fdSet (set : FdSet) (fd : Int) : Uses FdSet := do
  Traced.mark (.set fd)
  return Function.update set fd true

/-- `FD_ISSET`. -/
def fdIsset (set : FdSet) (fd : Int) : Uses Bool := do
  Traced.mark (.set fd)
  return set fd

end FdSet

namespace GinfoBlk

/-- A look into `tp_map`. -/
def mapGet (ginfo : GinfoBlk) (fd : Int) : Uses (Option Nat) := do
  Traced.mark (.map fd)
  return ginfo.tpMap fd

/-- An element of `tp_map` is set. -/
def mapSet (ginfo : GinfoBlk) (fd : Int) (blk : Option Nat) : Uses GinfoBlk := do
  Traced.mark (.map fd)
  return { ginfo with tpMap := Function.update ginfo.tpMap fd blk }

/-- `SImap_fd`. -/
def siMapFdUses (ginfo : GinfoBlk) (fd : Int) (blk : Nat) : Uses GinfoBlk :=
  if fd < maxFds then ginfo.mapSet fd (some blk) else return ginfo

/-- `SIconnect`. -/
def siConnectUses (ginfo : GinfoBlk) (blk : Nat) (prep : Option Nat) (connects : Bool) :
    Uses (GinfoBlk × Int) :=
  match prep, connects with
  | some fd, true => do
    let tp := { Tp.new with fd := fd, type := some .stream, session := true }
    let ginfo ← Traced.plain (ginfo.addHead blk tp)
    return (← ginfo.siMapFdUses fd blk, fd)
  | _, _ => return (ginfo, siError)

/-- `SIterm`. -/
def siTermUses (ginfo : GinfoBlk) (blk : Nat) : Uses GinfoBlk := do
  let cell ← Traced.plain (ginfo.mem.load blk)
  let fd := cell.item.fd
  let ginfo ← if 0 ≤ fd ∧ fd < maxFds then ginfo.mapSet fd none else pure ginfo
  let mem ← Traced.plain (ginfo.mem.setItem blk Tp.termed)
  return { ginfo with mem := mem }

/-- `SInewsession`, up to the callback for the new session. The block is that of the session, if
there is one. -/
def siAccept (ginfo : GinfoBlk) (listener blk : Nat) (accepted : Option Nat)
    (allocates rejects : Bool) : Uses (GinfoBlk × Option Nat) := do
  let cell ← Traced.plain (ginfo.mem.load listener)
  match accepted with
  | none => return (ginfo, none)
  | some fd =>
    if cell.item.fd < 0 || !allocates then return (ginfo, none)
    else
      let ginfo ← Traced.plain (ginfo.addHead blk { Tp.new with fd := fd })
      if rejects then return (← ginfo.siTermUses blk, none)
      else
        let mem ← Traced.plain (ginfo.mem.setItem blk fun tp => { tp with session := true })
        return ({ ginfo with mem := mem }, some blk)

/-- `SInewsession`, from the callback on. -/
def siAccepted (ginfo : GinfoBlk) (newtp : Nat) : Uses GinfoBlk := do
  let cell ← Traced.plain (ginfo.mem.load newtp)
  ginfo.siMapFdUses cell.item.fd newtp

/-- `SInewsession`, where nothing else happens in the callback. -/
def siNewsessionUses (ginfo : GinfoBlk) (listener blk : Nat) (accepted : Option Nat)
    (allocates rejects : Bool) : Uses (GinfoBlk × Int) := do
  let (ginfo, newtp) ← ginfo.siAccept listener blk accepted allocates rejects
  match newtp with
  | none => return (ginfo, siError)
  | some newtp => return (← ginfo.siAccepted newtp, siOk)

/-- The block that `SIclose` takes a descriptor for. -/
def closesUses (ginfo : GinfoBlk) (fd : Int) : Uses (Option Nat) :=
  if 0 ≤ fd then
    if fd < maxFds then ginfo.mapGet fd else Traced.plain (ginfo.search fun tp => tp.fd = fd)
  else if fd = tcpListenPort then Traced.plain (ginfo.search Tp.flagged)
  else Traced.plain (ginfo.search fun tp => tp.type = some .dgram)

/-- `SIclose`. -/
def siCloseUses (ginfo : GinfoBlk) (fd : Int) : Uses (GinfoBlk × Int) := do
  match ← ginfo.closesUses fd with
  | none => return (ginfo, siError)
  | some blk =>
    let mem ← Traced.plain (ginfo.mem.setItem blk Tp.closing)
    return (← { ginfo with mem := mem }.siTermUses blk, siOk)

/-- The block that `SIsendt` takes a descriptor for. -/
def sendsTo (ginfo : GinfoBlk) (fd : Int) : Uses (Option Nat) :=
  if fd < maxFds then ginfo.mapGet fd else Traced.plain (ginfo.search fun tp => tp.fd = fd)

/-- `SIsendt` up to its loop, with what `select` says of the descriptor. -/
def siSendtUses (ginfo : GinfoBlk) (fd : Int) (poll : Poll) : Uses GinfoBlk :=
  if fd < 0 then return ginfo
  else do
    match ← ginfo.sendsTo fd with
    | none => return ginfo
    | some blk =>
      let cell ← Traced.plain (ginfo.mem.load blk)
      let fd := cell.item.fd
      -- The descriptor that was asked for need not be real, and this one may be closed already.
      if fd < 0 ∨ fd ≥ fdSetsize then return ginfo
      else
        let _ ← FdSet.zero.fdSet fd
        let execpfds ← FdSet.zero.fdSet fd
        if poll = .busy then return ginfo
        else
          let left : FdSet := fun fd => execpfds fd && poll = .exception
          if ← left.fdIsset fd then ginfo.siTermUses blk else return ginfo

/-- A block that `SIbldpoll` finds marked is terminated if it was not, and removed. -/
def sweepUses (ginfo : GinfoBlk) (blk : Nat) (tp : Tp) : Uses GinfoBlk := do
  let ginfo ← if 0 ≤ tp.fd then ginfo.siTermUses blk else pure ginfo
  Traced.plain (ginfo.siRmTpb blk)

end GinfoBlk

/-- How far `SIwait` is, and the block that is next where it walks the list. -/
inductive Phase where
  /-- Not in `SIwait`. -/
  | idle
  | bldpoll (tpptr : Option Nat)
  | walk (tpptr : Option Nat)
  /-- In `SInewsession`, with the walk that it returns to. -/
  | newsession (newtp : Nat) (nextone : Option Nat)
  /-- In `SIshutdown`. -/
  | shutdown (tpb : Option Nat)

/-- The transport, with the sets that `SIwait` gives to `select`. Nothing is ever queued on a block,
so that no descriptor is in `writefds`, and none is draining. -/
structure SiWait where
  ginfo : GinfoBlk
  /-- `GIF_SHUTDOWN`. -/
  shutdown : Bool
  fdcount : Int
  readfds : FdSet
  execpfds : FdSet
  phase : Phase

/-- What `select` says. -/
inductive Selected where
  /-- The time is over, or a signal came. -/
  | nothing
  | failed
  /-- The descriptors that are left in the sets. -/
  | ready (readfds execpfds : FdSet)

/-- What comes in on a descriptor that can be read. -/
structure Comes where
  /-- Of a listener: a session, with the block that is made for it. -/
  blk : Nat
  accepted : Option Nat
  allocates : Bool
  rejects : Bool
  /-- Of a session: there is data, and not the end of it. -/
  data : Bool

/-- What happens in the thread of `SIwait`, in another thread, or in a callback. -/
inductive TransportEvent where
  | listener (type : SockType) (blk : Nat) (prep : Option Nat) (listens : Bool)
  | connect (blk : Nat) (prep : Option Nat) (connects : Bool)
  | close (fd : Int)
  | sendt (fd : Int) (poll : Poll)
  | term (blk : Nat)
  /-- A callback asks for the end. -/
  | quit
  /-- The thread of `SIwait` goes on from the phase it is in. -/
  | turn (selected : Selected) (comes : Comes)

namespace SiWait

/-- A transport without blocks. -/
def init : SiWait where
  ginfo := GinfoBlk.init
  shutdown := false
  fdcount := -1
  readfds := FdSet.zero
  execpfds := FdSet.zero
  phase := .idle

/-- `SIbldpoll` sets out. -/
def rebuild (si : SiWait) : SiWait :=
  { si with
    fdcount := -1
    readfds := FdSet.zero
    execpfds := FdSet.zero
    phase := .bldpoll si.ginfo.tplist }

/-- `SIbldpoll` for one block. -/
def bldpoll (si : SiWait) (blk : Nat) : Uses SiWait := do
  let cell ← Traced.plain (si.ginfo.mem.load blk)
  let tp := cell.item
  let si := { si with phase := .bldpoll cell.next }
  if tp.delete then return { si with ginfo := ← si.ginfo.sweepUses blk tp }
  else if 0 ≤ tp.fd then
    let execpfds ← si.execpfds.fdSet tp.fd
    let readfds ← si.readfds.fdSet tp.fd
    return { si with
      fdcount := if tp.fd ≥ si.fdcount then tp.fd + 1 else si.fdcount
      readfds := readfds
      execpfds := execpfds }
  else return si

/-- What `SIwait` does once `select` is through. -/
def select (si : SiWait) : Selected → SiWait
  | .nothing => { si with phase := .walk none }
  | .failed => { si with fdcount := 0, shutdown := true, phase := .walk none }
  | .ready readfds execpfds =>
    { si with
      readfds := fun fd => si.readfds fd && readfds fd
      execpfds := fun fd => si.execpfds fd && execpfds fd
      phase := .walk (if si.shutdown then none else si.ginfo.tplist) }

/-- `SIwait` for one block that can be read. -/
def reads (si : SiWait) (blk : Nat) (tp : Tp) (nextone : Option Nat) (comes : Comes) :
    Uses SiWait :=
  if tp.listenfd then
    -- A block that is made gets an address that is not in use.
    if (si.ginfo.mem comes.blk).isNone then do
      let (ginfo, newtp) ←
        si.ginfo.siAccept blk comes.blk comes.accepted comes.allocates comes.rejects
      return { si with
        ginfo := ginfo
        phase := newtp.elim (.walk nextone) fun newtp => .newsession newtp nextone }
    else return { si with phase := .walk nextone }
  else if comes.data then return { si with phase := .walk nextone }
  else return { si with ginfo := ← si.ginfo.siTermUses blk, phase := .walk nextone }

/-- `SIwait` for one block. -/
def walk (si : SiWait) (blk : Nat) (comes : Comes) : Uses SiWait := do
  let cell ← Traced.plain (si.ginfo.mem.load blk)
  let tp := cell.item
  if 0 ≤ tp.fd then
    if ← si.execpfds.fdIsset tp.fd then return { si with phase := .walk cell.next }
    else if ← si.readfds.fdIsset tp.fd then si.reads blk tp cell.next comes
    else return { si with phase := .walk cell.next }
  else return { si with phase := .walk cell.next }

/-- `SIwait` at the end of its walk: it goes on, cleans up, or returns. -/
def again (si : SiWait) : SiWait :=
  if si.shutdown then { si with phase := .shutdown si.ginfo.tplist }
  else if si.ginfo.tplist.isSome then si.rebuild
  else { si with phase := .idle }

/-- `SIshutdown` for one block. -/
def shut (si : SiWait) (tpb : Nat) : Uses SiWait := do
  let mem ← Traced.plain (si.ginfo.mem.setItem tpb fun tp => { tp with unbind := true })
  let ginfo ← { si.ginfo with mem := mem }.siTermUses tpb
  let cell ← Traced.plain (ginfo.mem.load tpb)
  return { si with ginfo := ginfo, phase := .shutdown cell.next }

/-- One event, where it can happen. -/
def step (si : SiWait) : TransportEvent → Uses SiWait
  | .listener type blk prep listens =>
    if (si.ginfo.mem blk).isNone then do
      let (ginfo, _) ← Traced.plain (si.ginfo.siListener type blk prep listens)
      return { si with ginfo := ginfo }
    else return si
  | .connect blk prep connects =>
    if (si.ginfo.mem blk).isNone then do
      let (ginfo, _) ← si.ginfo.siConnectUses blk prep connects
      return { si with ginfo := ginfo }
    else return si
  | .close fd => do
    let (ginfo, _) ← si.ginfo.siCloseUses fd
    return { si with ginfo := ginfo }
  | .sendt fd poll => return { si with ginfo := ← si.ginfo.siSendtUses fd poll }
  | .term blk =>
    if (si.ginfo.mem blk).isSome then return { si with ginfo := ← si.ginfo.siTermUses blk }
    else return si
  | .quit => return { si with shutdown := true }
  | .turn selected comes =>
    match si.phase with
    | .idle => return if si.shutdown then si else si.rebuild
    | .bldpoll (some blk) => si.bldpoll blk
    | .bldpoll none => return si.select selected
    | .walk (some blk) => si.walk blk comes
    | .walk none => return si.again
    | .newsession newtp nextone => do
      return { si with ginfo := ← si.ginfo.siAccepted newtp, phase := .walk nextone }
    | .shutdown (some tpb) => si.shut tpb
    | .shutdown none => return { si with phase := .idle }

/-- Events one after the other. -/
def run (events : List TransportEvent) : Uses SiWait := events.foldlM step init

/-- What the block at an address holds, if there is one. -/
def tpAt (si : SiWait) (blk : Nat) : Option Tp := (si.ginfo.mem blk).map Cell.item

end SiWait

/-- The condition for an event: no block that `SIbldpoll` or the walk of `SIwait` is at has a
descriptor that `select` cannot be asked about, where `SIbldpoll` does not remove it, and no new
session was closed before it gets into the map. -/
def TransportEvent.Fits (si : SiWait) : TransportEvent → Prop
  | .turn _ _ =>
    match si.phase with
    | .bldpoll (some blk) => ∀ tp ∈ si.tpAt blk, tp.delete = false → tp.fd < fdSetsize
    | .walk (some blk) => ∀ tp ∈ si.tpAt blk, tp.fd < fdSetsize
    | .newsession newtp _ => ∀ tp ∈ si.tpAt newtp, 0 ≤ tp.fd
    | _ => True
  | _ => True

/-- The descriptors that the operating system gives out with an event can be given to `select`. -/
def TransportEvent.Small : TransportEvent → Prop
  | .listener _ _ prep _ => ∀ fd ∈ prep, fd < fdSetsize
  | .connect _ prep _ => ∀ fd ∈ prep, fd < fdSetsize
  | .turn _ comes => ∀ fd ∈ comes.accepted, fd < fdSetsize
  | _ => True

/-- A new session is open when it gets into the map. -/
def SiWait.MapsOpen (si : SiWait) : Prop :=
  ∀ newtp nextone, si.phase = .newsession newtp nextone → ∀ tp ∈ si.tpAt newtp, 0 ≤ tp.fd

end Rmr

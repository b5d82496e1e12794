import Rmr.Lib.Linked
import Rmr.Lib.Run
import Rmr.Transport.Session

/-! The list of transport blocks as it is linked in memory, and the map from descriptors to blocks.
-/

namespace Rmr

/-- `SOCK_STREAM` and `SOCK_DGRAM`. -/
inductive SockType where
  | stream
  | dgram
  deriving DecidableEq

/-- What a transport block holds beside its links. -/
structure Tp where
  fd : Int
  /-- There is none in the block of an accepted session. -/
  type : Option SockType
  /-- `TPF_LISTENFD`. -/
  listenfd : Bool
  /-- `TPF_SESSION`. -/
  session : Bool
  /-- `TPF_UNBIND`. -/
  unbind : Bool
  /-- `TPF_DELETE`. -/
  delete : Bool
  deriving DecidableEq

namespace Tp

/-- `SInew`, for a transport block. -/
def new : Tp where
  fd := -1
  type := none
  listenfd := false
  session := false
  unbind := true
  delete := false

/-- The flags of a block are not zero. -/
def flagged (tp : Tp) : Bool := tp.listenfd || tp.session || tp.unbind || tp.delete

/-- What `SIterm` leaves in a block. -/
def termed (tp : Tp) : Tp := { tp with fd := -1, delete := true }

/-- `SIclose` marks a block before it terminates it. -/
def closing (tp : Tp) : Tp := { tp with unbind := true, delete := true }

end Tp

/-- The part of `ginfo_blk` that refers to transport blocks, and these blocks in memory. -/
structure GinfoBlk where
  mem : Cells Tp
  tplist : Option Nat
  /-- `tp_map`, by descriptor. -/
  tpMap : Int → Option Nat
  /-- How many blocks were put into the list so far; no walk of the list is longer. -/
  linked : Nat

/-- What happens, with what the operating system answers. A function that makes a block gets an
address for it that is not in use. -/
inductive SiEvent where
  /-- `SIlistener`; `SIlisten_prep` may have failed. -/
  | listener (type : SockType) (blk : Nat) (prep : Option Nat) (listens : Bool)
  /-- `SIconnect`; `SIconn_prep` may have failed. -/
  | connect (blk : Nat) (prep : Option Nat) (connects : Bool)
  /-- `SInewsession` for a listening block; the security callback may reject the session. -/
  | newsession (listener blk : Nat) (accepted : Option Nat) (allocates rejects : Bool)
  | term (blk : Nat)
  | close (fd : Int)
  | bldpoll

namespace GinfoBlk

/-- `SI_OK` and `SI_ERROR`. -/
def siOk : Int := 0

def siError : Int := -1

/-- `TCP_LISTEN_PORT`. -/
def tcpListenPort : Int := -1

/-- Nothing is open. -/
def init : GinfoBlk where
  mem := fun _ => none
  tplist := none
  tpMap := fun _ => none
  linked := 0

/-- A new block becomes the head of the list. -/
def addHead (ginfo : GinfoBlk) (blk : Nat) (tp : Tp) : Except Fault GinfoBlk := do
  let (mem, tplist) ← ginfo.mem.linkFront ginfo.tplist blk tp
  return { ginfo with mem := mem, tplist := tplist, linked := ginfo.linked + 1 }

/-- `SImap_fd`. -/
def siMapFd (ginfo : GinfoBlk) (fd : Int) (blk : Nat) : GinfoBlk :=
  if fd < maxFds then { ginfo with tpMap := Function.update ginfo.tpMap fd (some blk) } else ginfo

/-- `SIlistener`. -/
def siListener (ginfo : GinfoBlk) (type : SockType) (blk : Nat) (prep : Option Nat)
    (listens : Bool) : Except Fault (GinfoBlk × Int) :=
  match prep with
  | none => .ok (ginfo, siError)
  | some fd =>
    let tp := { Tp.new with fd := fd, type := some type }
    match type, listens with
    -- The block and its descriptor are left where they are.
    | .stream, false => .ok ({ ginfo with mem := ginfo.mem.store blk ⟨none, none, tp⟩ }, siError)
    | .stream, true => do return (← ginfo.addHead blk { tp with listenfd := true }, fd)
    | .dgram, _ => do return (← ginfo.addHead blk tp, fd)

/-- `SIconnect`. -/
def siConnect (ginfo : GinfoBlk) (blk : Nat) (prep : Option Nat) (connects : Bool) :
    Except Fault (GinfoBlk × Int) :=
  match prep, connects with
  | some fd, true => do
    let tp := { Tp.new with fd := fd, type := some .stream, session := true }
    return ((← ginfo.addHead blk tp).siMapFd fd blk, fd)
  -- What was made is trashed.
  | _, _ => .ok (ginfo, siError)

/-- `SIterm`. -/
def siTerm (ginfo : GinfoBlk) (blk : Nat) : Except Fault GinfoBlk := do
  let cell ← ginfo.mem.load blk
  let fd := cell.item.fd
  let mem ← ginfo.mem.setItem blk Tp.termed
  return { ginfo with
    mem := mem
    tpMap := if 0 ≤ fd ∧ fd < maxFds then Function.update ginfo.tpMap fd none else ginfo.tpMap }

/-- `SInewsession`. -/
def siNewsession (ginfo : GinfoBlk) (listener blk : Nat) (accepted : Option Nat)
    (allocates rejects : Bool) : Except Fault (GinfoBlk × Int) := do
  let cell ← ginfo.mem.load listener
  match accepted with
  | none => return (ginfo, siError)
  | some fd =>
    -- Nothing comes in where there is no descriptor, and without a block the session is closed.
    if cell.item.fd < 0 || !allocates then return (ginfo, siError)
    else
      let ginfo ← ginfo.addHead blk { Tp.new with fd := fd }
      if rejects then return (← ginfo.siTerm blk, siError)
      else
        let mem ← ginfo.mem.setItem blk fun tp => { tp with session := true }
        return ({ ginfo with mem := mem }.siMapFd fd blk, siOk)

/-- `SIrm_tpb`. -/
def siRmTpb (ginfo : GinfoBlk) (blk : Nat) : Except Fault GinfoBlk := do
  let cell ← ginfo.mem.load blk
  if cell.prev ≠ none ∨ cell.next ≠ none then
    let (mem, tplist) ← ginfo.mem.unlink ginfo.tplist blk
    return { ginfo with mem := mem, tplist := tplist }
  else return { ginfo with mem := ginfo.mem.free blk }

/-- The walk of the list up to the first block of a kind. -/
def search (ginfo : GinfoBlk) (matched : Tp → Bool) : Except Fault (Option Nat) :=
  ginfo.mem.search matched ginfo.linked ginfo.tplist

/-- The block that `SIclose` takes a descriptor for. -/
def closes (ginfo : GinfoBlk) (fd : Int) : Except Fault (Option Nat) :=
  if 0 ≤ fd then
    if fd < maxFds then .ok (ginfo.tpMap fd) else ginfo.search fun tp => tp.fd = fd
  -- `flags && TPF_LISTENFD` holds of any flags, and there are always some.
  else if fd = tcpListenPort then ginfo.search Tp.flagged
  else ginfo.search fun tp => tp.type = some .dgram

/-- `SIclose`. -/
def siClose (ginfo : GinfoBlk) (fd : Int) : Except Fault (GinfoBlk × Int) := do
  match ← ginfo.closes fd with
  | none => return (ginfo, siError)
  | some blk =>
    let mem ← ginfo.mem.setItem blk Tp.closing
    return (← { ginfo with mem := mem }.siTerm blk, siOk)

/-- A block that `SIbldpoll` finds marked is terminated if it was not, and removed. -/
def sweep (ginfo : GinfoBlk) (blk : Nat) (tp : Tp) : Except Fault GinfoBlk :=
  if tp.delete then do
    let ginfo ← if 0 ≤ tp.fd then ginfo.siTerm blk else pure ginfo
    ginfo.siRmTpb blk
  else .ok ginfo

/-- The loop of `SIbldpoll`. -/
def siBldpollFrom : Nat → GinfoBlk → Option Nat → Except Fault GinfoBlk
  | _, ginfo, none => .ok ginfo
  | 0, _, some _ => .error .spin
  | fuel + 1, ginfo, some blk => do
    let cell ← ginfo.mem.load blk
    let ginfo ← ginfo.sweep blk cell.item
    siBldpollFrom fuel ginfo cell.next

/-- `SIbldpoll`. -/
def siBldpoll (ginfo : GinfoBlk) : Except Fault GinfoBlk :=
  siBldpollFrom ginfo.linked ginfo ginfo.tplist

/-- One event. Nobody gets an address that is in use, or has the address of a block that is not
there. -/
def step (ginfo : GinfoBlk) : SiEvent → Except Fault GinfoBlk
  | .listener type blk prep listens =>
    if (ginfo.mem blk).isNone then Prod.fst <$> ginfo.siListener type blk prep listens
    else .ok ginfo
  | .connect blk prep connects =>
    if (ginfo.mem blk).isNone then Prod.fst <$> ginfo.siConnect blk prep connects else .ok ginfo
  | .newsession listener blk accepted allocates rejects =>
    if (ginfo.mem listener).isSome && (ginfo.mem blk).isNone then
      Prod.fst <$> ginfo.siNewsession listener blk accepted allocates rejects
    else .ok ginfo
  | .term blk => if (ginfo.mem blk).isSome then ginfo.siTerm blk else .ok ginfo
  | .close fd => Prod.fst <$> ginfo.siClose fd
  | .bldpoll => ginfo.siBldpoll

/-- Events one after the other. -/
def run (events : List SiEvent) : Except Fault GinfoBlk := events.foldlM step init

/-- The list of blocks is linked in memory, nothing else is, and the map refers to blocks of the
list by their descriptors. -/
structure Listed (ginfo : GinfoBlk) (list : List (Nat × Tp)) : Prop where
  linked : Linked ginfo.mem ginfo.tplist list
  only : ∀ blk ∉ addrs list, ginfo.mem blk = none
  mapped : ∀ fd blk, ginfo.tpMap fd = some blk →
    0 ≤ fd ∧ fd < maxFds ∧ ∃ tp, (blk, tp) ∈ list ∧ tp.fd = fd

/-- There is a list that the blocks are linked in. -/
def Sound (ginfo : GinfoBlk) : Prop := ∃ list, ginfo.Listed list

end GinfoBlk

/-- The condition for an event: no new listener fails to listen, and no sweep removes all blocks. -/
def SiEvent.Keeps (ginfo : GinfoBlk) : SiEvent → Prop
  | .listener type _ prep listens => type = .stream → prep ≠ none → listens = true
  | .bldpoll => ginfo.tplist = none ∨
    Yields (fun found => found.isSome = true) (ginfo.search fun tp => !tp.delete)
  | _ => True

instance decidableKeeps (ginfo : GinfoBlk) : (event : SiEvent) → Decidable (event.Keeps ginfo)
  | .listener .. => inferInstanceAs (Decidable (_ → _ → _))
  | .bldpoll => inferInstanceAs (Decidable (_ ∨ _))
  | .connect .. | .newsession .. | .term _ | .close _ => isTrue trivial

end Rmr

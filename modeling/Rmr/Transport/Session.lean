import Mathlib.Logic.Function.Basic
import Rmr.Transport.Sendt

/-! Transport blocks and the descriptors that they hold. -/

namespace Rmr

/-- `MAX_FDS`: descriptors below it are found in the map. -/
def maxFds : Nat := 2048

/-- `FD_SETSIZE`: descriptors below it can be given to `select`. -/
def fdSetsize : Nat := 1024

/-- `tp_blk`. -/
structure TpBlk where
  /-- Nil once the descriptor was closed. -/
  fd : Option Nat
  /-- `TPF_LISTENFD`. -/
  listener : Bool
  /-- `TPF_DELETE`. -/
  deleted : Bool
  /-- The session that the block was made for. The code has no number for it. -/
  session : Nat

/-- `ginfo_blk`, with the descriptors that the process has open. -/
structure Si where
  /-- Transport blocks by address. -/
  blks : Nat → Option TpBlk
  nextBlk : Nat
  tplist : List Nat
  tpMap : Nat → Option Nat
  /-- The session that an open descriptor belongs to. -/
  os : Nat → Option Nat
  nextSession : Nat

namespace Si

/-- A process that only listens, on some descriptor. -/
def init (fd : Nat) : Si where
  blks := Function.update (fun _ => none) 0
    (some { fd := some fd, listener := true, deleted := false, session := 0 })
  nextBlk := 1
  tplist := [0]
  tpMap := fun _ => none
  os := Function.update (fun _ => none) fd (some 0)
  nextSession := 1

/-- The descriptor of the block at an address. -/
def fdOf (si : Si) (blk : Nat) : Option Nat := (si.blks blk).bind TpBlk.fd

/-- `SImap_fd`. -/
def mapFd (si : Si) (fd blk : Nat) : Si :=
  if fd < maxFds then { si with tpMap := Function.update si.tpMap fd (some blk) } else si

/-- A session on a descriptor that the operating system gives out, with a block at the head of the
list. -/
def open_ (si : Si) (fd : Nat) : Si :=
  let blk := si.nextBlk
  mapFd { si with
    blks := Function.update si.blks blk
      (some { fd := some fd, listener := false, deleted := false, session := si.nextSession })
    nextBlk := blk + 1
    tplist := blk :: si.tplist
    os := Function.update si.os fd (some si.nextSession)
    nextSession := si.nextSession + 1 } fd blk

/-- The map without a descriptor, if there is one and it can be in the map. -/
def unmap (tpMap : Nat → Option Nat) : Option Nat → Nat → Option Nat
  | none => tpMap
  | some fd => if fd < maxFds then Function.update tpMap fd none else tpMap

/-- The first half of `SIterm`: the descriptor is closed. -/
def shut (si : Si) (fd : Nat) : Si := { si with os := Function.update si.os fd none }

/-- The second half of `SIterm`: the map and the block give the descriptor up. -/
def mark (si : Si) (blk : Nat) : Si :=
  match si.blks blk with
  | none => si
  | some tpptr => { si with
    tpMap := unmap si.tpMap tpptr.fd
    blks := Function.update si.blks blk (some { tpptr with fd := none, deleted := true }) }

/-- `SIterm`. -/
def term (si : Si) (blk : Nat) : Si :=
  match si.fdOf blk with
  | none => si.mark blk
  | some fd => (si.shut fd).mark blk

/-- `SIrm_tpb`, for a block that `SIbldpoll` finds marked. One that still has its descriptor is
terminated first. -/
def remove (si : Si) (blk : Nat) : Si :=
  match si.blks blk with
  | none => si
  | some tpptr =>
    if blk ∈ si.tplist ∧ tpptr.deleted then
      let si := si.term blk
      { si with
        blks := Function.update si.blks blk none
        tplist := si.tplist.erase blk }
    else si

/-- The block that `SIsendt` finds for a descriptor. -/
def find (si : Si) (fd : Nat) : Option Nat :=
  if fd < maxFds then si.tpMap fd else si.tplist.find? (fun blk => si.fdOf blk = some fd)

/-- The block and the descriptor that `SIsendt` asks `select` about. -/
def target (si : Si) (fd : Nat) : Option (Nat × Nat) := do
  let blk ← si.find fd
  let fd ← si.fdOf blk
  if fd < fdSetsize then return (blk, fd) else none

end Si

end Rmr

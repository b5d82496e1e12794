import Rmr.Wire.Header

/-! The inbound byte flow of each connection, and the callbacks SI drives as data arrives on it. -/

namespace Rmr

/-- `RS_*`: the states of a river. -/
inductive RiverState where
  /-- `RS_NEW`: the river is uninitialised. -/
  | new
  /-- `RS_GOOD`: flow is in progress. -/
  | good
  /-- `RS_RESET`: flow was interrupted. -/
  | reset
  deriving DecidableEq, Repr

/-- `river_t`: manages a river of inbound bytes. -/
structure River where
  state : RiverState
  /-- Bytes being accumulated; `none` is a nil pointer. -/
  accum : Option Block
  /-- Allocated size of the accumulator. -/
  nbytes : Int
  /-- Insertion point in the accumulator. -/
  ipt : Int
  /-- Size of the message being accumulated. -/
  msgSize : Int
  /-- `RF_NOTIFIED`: a notification was made about an issue of the river. -/
  notified : Bool
  /-- `RF_DROP`: this message is large and being dropped. -/
  drop : Bool

/-- A river whose struct was cleared with `memset`. -/
def River.zero : River where
  state := .new
  accum := none
  nbytes := 0
  ipt := 0
  msgSize := 0
  notified := false
  drop := false

/-- What the receive side is configured with. -/
structure RcvConf where
  /-- How the host stores the bytes of an integer. -/
  order : ByteOrder
  /-- Descriptors below this are served by the array, others by the hash. -/
  nrivers : Int
  /-- `max_ibm`: the usual largest inbound message, headers included. -/
  maxIbm : Int
  /-- `init` starts from at least 1024 bytes and adds the headers, data 1 and some room. -/
  maxIbm_low : 1024 + (mhdrLen : Int) + 4 + tpHdrLen + 64 ≤ maxIbm
  /-- The size of a fresh accumulator is an `int`. -/
  maxIbm_high : maxIbm + 1024 ≤ intMax

/-- The usual size of an accumulator. -/
def RcvConf.usual (conf : RcvConf) : Int := conf.maxIbm + 1024

/-- A receiver as `init` configures it by default, on a little endian host. -/
def RcvConf.default : RcvConf where
  order := .little
  nrivers := 1024
  maxIbm := 4096 + mhdrLen + 4 + tpHdrLen + 64
  maxIbm_low := by decide
  maxIbm_high := by decide

/-- What each successive allocation finds in the memory it is given. -/
abbrev Leftover := Nat → Nat → UInt8

/-- A fresh block; its bytes are those left over in memory. -/
def Leftover.malloc (left : Leftover) (nth : Nat) (size : Int) : Block where
  size := size.toNat
  byte := left nth

/-- One call of `buf2mbuf`, with the accumulator as it was handed over. -/
structure Call where
  fd : Int
  rawMsg : Block
  /-- The size argument of the call. -/
  msgSize : Int
  /-- Bytes of the message that had been received; not an argument of the call. -/
  received : Int

/-- `extract_mlen`: the size of the message whose first bytes stand at an offset of a buffer. -/
def extractMlen (order : ByteOrder) (buf : Block) (at_ : Nat) : Nat :=
  if buf.byte (at_ + 8) = tpSzMarker then
    let osize := buf.get32 order at_
    let size := buf.net32 order (at_ + 4)
    -- A back level return to sender rewrites only the old size, which must then be used.
    if osize ≠ size then osize else size
  else
    buf.get32 order at_

/-- The local state of the loop over the bytes passed in. -/
structure Flow where
  river : River
  /-- Accumulators allocated so far by the process. -/
  allocs : Nat
  /-- Index into the transport buffer. -/
  bidx : Int
  /-- Bytes of the transport buffer that still need to be moved. -/
  remain : Int

/-- Copy from the transport buffer into the accumulator at the insertion point. -/
def River.grab (river : River) (buf : Block) (bidx count : Int) : Except Fault River :=
  match river.accum with
  | none => .error .nil
  | some accum => do
    let filled ← accum.memcpy river.ipt buf bidx count
    return { river with accum := some filled }

/-- How one half of a pass over the loop ends. -/
inductive Ended where
  /-- The callback returns. -/
  | returned (river : River) (allocs : Nat)
  /-- The pass goes on. -/
  | goesOn (flow : Flow)

/-- The accumulator switch for a message bigger than the buffer at hand. -/
def growAccum (left : Leftover) (flow : Flow) : Except Fault Flow := do
  let nbytes ← addInt flow.river.msgSize 128
  let fresh := left.malloc flow.allocs nbytes
  if 0 < flow.river.ipt then
    match flow.river.accum with
    | none => .error .nil
    | some oldAccum =>
      let count ← addInt flow.river.ipt 1
      let carried ← fresh.memcpy 0 oldAccum 0 count
      return { flow with
        river := { flow.river with nbytes := nbytes, accum := some carried }
        allocs := flow.allocs + 1 }
  else
    return { flow with
      river := { flow.river with nbytes := nbytes, accum := some fresh }
      allocs := flow.allocs + 1 }

/-- The message size, once all of the size field is at hand. -/
def readSize (order : ByteOrder) (buf : Block) (flow : Flow) (need : Int) :
    Except Fault Flow :=
  if 0 < flow.river.ipt then do
    -- The start of the size was captured last go round.
    let river ← flow.river.grab buf flow.bidx need
    let ipt ← addInt river.ipt need
    let accum := river.accum.getD (Block.ofList [])
    return { flow with
      river := { river with ipt := ipt, msgSize := toInt (extractMlen order accum 0) }
      bidx := flow.bidx + need
      remain := flow.remain - need }
  else
    -- It is all in the transport buffer, and will be copied later.
    return { flow with river := { flow.river with
      msgSize := toInt (extractMlen order buf flow.bidx.toNat) } }

/-- The first half of a pass: make sure that the message size is known. -/
def takeSize (order : ByteOrder) (left : Leftover) (buf : Block) (flow : Flow) :
    Except Fault Ended :=
  if flow.river.msgSize ≤ 0 then
    let need := toInt (tpSzfieldLen - flow.river.ipt)
    if flow.remain < need then do
      -- Not all of the size is here: grab what we can and depart.
      let river ← flow.river.grab buf flow.bidx flow.remain
      let ipt ← addInt river.ipt flow.remain
      return .returned { river with ipt := ipt } flow.allocs
    else do
      let sized ← readSize order buf flow need
      if sized.river.msgSize < 0 then
        return .returned { sized.river with state := .reset } sized.allocs
      else if sized.river.nbytes < sized.river.msgSize then
        return .goesOn (← growAccum left sized)
      else
        return .goesOn sized
  else
    return .goesOn flow

/-- The second half of a pass: move message bytes, and pass the message on when it is whole. -/
def moveBytes (conf : RcvConf) (left : Leftover) (fd : Int) (buf : Block) (flow : Flow) :
    Except Fault (Flow × Option Call) := do
  let have_ ← addInt flow.river.ipt flow.remain
  if have_ < flow.river.msgSize then
    -- More is needed than is left in the transport buffer.
    let river ← if flow.river.drop then .ok flow.river
      else flow.river.grab buf flow.bidx flow.remain
    return ({ flow with river := { river with ipt := have_ }, remain := 0 }, none)
  else
    let need ← subInt flow.river.msgSize flow.river.ipt
    if flow.river.drop then
      return ({ flow with
        river := { flow.river with notified := true, msgSize := -1, ipt := 0 }
        bidx := flow.bidx + need
        remain := flow.remain - need }, none)
    else
      let river ← flow.river.grab buf flow.bidx need
      let rawMsg := river.accum.getD (Block.ofList [])
      return ({
        river := { river with
          nbytes := conf.usual
          accum := some (left.malloc flow.allocs conf.usual)
          msgSize := -1
          ipt := 0 }
        allocs := flow.allocs + 1
        bidx := flow.bidx + need
        remain := flow.remain - need },
        some ⟨fd, rawMsg, river.nbytes, flow.river.msgSize⟩)

/-- A river before its first byte: every state which is not good requires a reset first. -/
def River.ready (conf : RcvConf) (left : Leftover) (allocs : Nat) (river : River) :
    Option (River × Nat) :=
  match river.state with
  | .good => some (river, allocs)
  | .new =>
    some ({ River.zero with
      state := .good
      nbytes := conf.usual
      accum := some (left.malloc allocs conf.usual) }, allocs + 1)
  -- The reset is not implemented: whatever arrives is ignored.
  | .reset => none

/-- The data callback in progress: the descriptor and buffer it was given, and its indexes. -/
structure DataCb where
  fd : Int
  buf : Block
  bidx : Int
  remain : Int

/-- The receive side of a context, with a log of the calls made to `buf2mbuf`. -/
structure Rcv where
  /-- `rivers`: inbound flows, the index is the descriptor. -/
  rivers : Int → River
  /-- `river_hash`: flows whose descriptor is not below `nrivers`. -/
  riverHash : Int → Option River
  /-- Accumulators allocated so far. -/
  allocs : Nat
  calls : List Call
  /-- The data callback that the single receive thread is in. -/
  busy : Option DataCb

/-- The receive side as `init` leaves it. -/
def Rcv.init : Rcv where
  rivers := fun _ => River.zero
  riverHash := fun _ => none
  allocs := 0
  calls := []
  busy := none

/-- The river of a descriptor; a hashed one is created when it is not there. -/
def Rcv.river (conf : RcvConf) (rcv : Rcv) (fd : Int) : River :=
  if conf.nrivers ≤ fd then (rcv.riverHash fd).getD River.zero else rcv.rivers fd

/-- The receive side with the river of a descriptor changed. -/
def Rcv.setRiver (conf : RcvConf) (rcv : Rcv) (fd : Int) (river : River) : Rcv :=
  if conf.nrivers ≤ fd then
    { rcv with riverHash := Function.update rcv.riverHash fd (some river) }
  else
    { rcv with rivers := Function.update rcv.rivers fd river }

/-- `mt_data_cb` up to its loop. -/
def Rcv.dataCb (conf : RcvConf) (left : Leftover) (rcv : Rcv) (fd : Int)
    (chunk : List UInt8) : Rcv :=
  if chunk.length = 0 ∨ fd < 0 then rcv
  else
    match (rcv.river conf fd).ready conf left rcv.allocs with
    | none => rcv
    | some (river, allocs) =>
      { rcv.setRiver conf fd river with
        allocs := allocs
        busy := some ⟨fd, Block.ofList chunk, 0, chunk.length⟩ }

/-- One pass of the loop of `mt_data_cb`; the callback is over when nothing remains. -/
def Rcv.pass (conf : RcvConf) (left : Leftover) (rcv : Rcv) (cb : DataCb) :
    Except Fault Rcv := do
  let flow : Flow := ⟨rcv.river conf cb.fd, rcv.allocs, cb.bidx, cb.remain⟩
  match ← takeSize conf.order left cb.buf flow with
  | .returned river allocs =>
    return { rcv.setRiver conf cb.fd river with allocs := allocs, busy := none }
  | .goesOn sized =>
    let (moved, call) ← moveBytes conf left cb.fd cb.buf sized
    return { rcv.setRiver conf cb.fd moved.river with
      allocs := moved.allocs
      calls := rcv.calls ++ call.toList
      busy := if 0 < moved.remain then some { cb with bidx := moved.bidx, remain := moved.remain }
        else none }

/-- `mt_disc_cb`, as far as it concerns the river of the descriptor. -/
def Rcv.discCb (conf : RcvConf) (rcv : Rcv) (fd : Int) : Rcv :=
  if 0 ≤ fd ∧ fd < conf.nrivers then
    rcv.setRiver conf fd { rcv.rivers fd with state := .new, accum := none }
  else if 0 < fd then
    match rcv.riverHash fd with
    | none => rcv
    | some river =>
      { rcv with riverHash :=
          Function.update rcv.riverHash fd (some { river with state := .new, accum := none }) }
  else rcv

/-- What the single receive thread may do next. -/
inductive RcvStep where
  /-- SI hands over bytes received on a descriptor. -/
  | data (fd : Int) (chunk : List UInt8)
  /-- The data callback makes one more pass of its loop. -/
  | pass
  /-- SI reports a disconnect. -/
  | disc (fd : Int)

/-- One step of the receive thread; a step that is not possible at the moment changes nothing. -/
def Rcv.step (conf : RcvConf) (left : Leftover) (rcv : Rcv) : RcvStep → Except Fault Rcv
  | .data fd chunk => match rcv.busy with
    | none => .ok (rcv.dataCb conf left fd chunk)
    | some _ => .ok rcv
  | .pass => match rcv.busy with
    | none => .ok rcv
    | some cb => rcv.pass conf left cb
  | .disc fd => match rcv.busy with
    | none => .ok (rcv.discCb conf fd)
    | some _ => .ok rcv

/-- A run of the receive thread, from the state `init` leaves. -/
def Rcv.run (conf : RcvConf) (left : Leftover) (steps : List RcvStep) : Except Fault Rcv :=
  steps.foldlM (fun rcv step => rcv.step conf left step) Rcv.init

/-- Passes of the loop until the callback is over, at most as many as there is fuel. -/
def Rcv.loop (conf : RcvConf) (left : Leftover) : Nat → Rcv → Except Fault Rcv
  | fuel, rcv => match rcv.busy with
    | none => .ok rcv
    | some cb => match fuel with
      | 0 => .error .spin
      | fuel + 1 => do
        let next ← rcv.pass conf left cb
        next.loop conf left fuel

/-- A whole call of `mt_data_cb`, with one pass of fuel for each byte passed in. -/
def Rcv.mtDataCb (conf : RcvConf) (left : Leftover) (rcv : Rcv) (fd : Int)
    (chunk : List UInt8) : Except Fault Rcv :=
  (rcv.dataCb conf left fd chunk).loop conf left chunk.length

/-- Successive calls of `mt_data_cb`, each with a descriptor and the bytes received on it. -/
def Rcv.receive (conf : RcvConf) (left : Leftover) (chunks : List (Int × List UInt8)) :
    Except Fault Rcv :=
  chunks.foldlM (fun rcv chunk => rcv.mtDataCb conf left chunk.1 chunk.2) Rcv.init

end Rmr

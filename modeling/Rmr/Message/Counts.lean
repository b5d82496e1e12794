import Rmr.Message.Returns

/-! The counters of endpoints: how often sending to one went well, is to be tried again, or failed.
-/

namespace Rmr

/-- `EPSC_GOOD`, `EPSC_TRANS` and `EPSC_FAIL`. -/
inductive EpCounter where
  | good
  | trans
  | fail
  deriving DecidableEq

/-- `scounts` of every endpoint. -/
abbrev EpCounts := CStr → EpCounter → Nat

/-- The counter that `incr_ep_counts` takes for a state. -/
def MsgState.counter : MsgState → EpCounter
  | .ok => .good
  | .retry => .trans
  | _ => .fail

/-- `incr_ep_counts`, which may be given no endpoint. -/
def incrEpCounts (counts : EpCounts) (state : MsgState) : Option CStr → EpCounts
  | none => counts
  | some ep => Function.update counts ep
      (Function.update (counts ep) state.counter (counts ep state.counter + 1))

/-- Its callers: without a message there is no state to look at. -/
def countSent (counts : EpCounts) (sent : Option Draft) (ep : Option CStr) : EpCounts :=
  match sent with
  | none => counts
  | some draft => incrEpCounts counts draft.msg.state ep

/-- A send to an endpoint, with what it comes to. -/
abbrev EpSend := CStr × SendResult

/-- What the loop of `mtosend_msg` leaves. -/
structure Fanned where
  sent : Option Draft
  okSends : Bool
  counts : EpCounts

/-- The loop of `mtosend_msg` with the counters of its endpoints. -/
def countedFan (conf : SendConf) (left : Leftover) (draft : Draft) (okSends : Bool)
    (counts : EpCounts) :
    List (Option EpSend) → Except Fault Fanned
  | [] => .ok ⟨some draft, okSends, counts⟩
  | none :: groups =>
    countedFan conf left { draft with msg := { draft.msg with state := .noEndpt } } okSends counts
      groups
  | [some send] => do
    let sent ← trySend conf left draft send.2
    return ⟨sent, okSends, countSent counts sent (some send.1)⟩
  | some send :: groups => do
    let clone ← cloneMsg conf.order left draft
    let msg := { draft.msg with noAlloc := true }
    match ← trySend conf left { msg := msg, allocs := clone.allocs } send.2 with
    -- The state that is counted is that of the clone, which was made before the send.
    | some _ =>
      countedFan conf left clone okSends (countSent counts (some clone) (some send.1)) groups
    | none =>
      let clone := { clone with msg := { clone.msg with state := .ok } }
      countedFan conf left clone true (countSent counts (some clone) (some send.1)) groups

/-- `mtosend_msg`. -/
def countedMtosend (conf : SendConf) (left : Leftover) (draft : Draft) (counts : EpCounts)
    (groups : List (Option EpSend)) : Except Fault (Option Draft × EpCounts) :=
  if groups = [] then .ok (some { draft with msg := { draft.msg with state := .noEndpt } }, counts)
  else do
    let fanned ← countedFan conf left draft false counts groups
    let sent := fanned.sent.map fun draft => { draft with
      msg := { draft.msg with
        noAlloc := false
        state := if fanned.okSends then .ok else draft.msg.state } }
    return (sent, fanned.counts)

/-- `rmr_send_msg` and `rmr_mtosend_msg`. -/
def countedSend (conf : SendConf) (left : Leftover) (draft : Draft) (counts : EpCounts)
    (groups : List (Option EpSend)) : Except Fault (Option Draft × EpCounts) := do
  let msg ← (draft.msg.unmarkCall conf.order).blotCallId conf.order
  countedMtosend conf left { draft with msg := msg } counts groups

/-- `mt_call` up to where it waits, through the route table. -/
def countedCall (conf : SendConf) (left : Leftover) (draft : Draft) (counts : EpCounts)
    (callId : UInt8) (groups : List (Option EpSend)) : Except Fault (Option Draft × EpCounts) := do
  let request ← draft.msg.request conf.order callId
  let sent ← countedMtosend conf left { draft with msg := request } counts groups
  return (sent.1.filter fun draft => draft.msg.state ≠ .ok, sent.2)

/-- What `uta_epsock_byname` leaves. -/
structure Epsock where
  /-- The endpoints in the hash. -/
  known : CStr → Bool
  /-- There is a socket. -/
  ok : Bool
  /-- The endpoint that the caller is given. -/
  uepp : Option CStr

/-- `rt_ensure_ep`, which refuses an empty name. -/
def rtEnsureEp (known : CStr → Bool) (name : CStr) : CStr → Bool :=
  if name = [] then known else Function.update known name true

/-- `uta_epsock_byname`: an endpoint is made for a new name, but only after the caller was given
what was in the hash. With none, there is nothing to link. -/
def utaEpsockByname (known : CStr → Bool) (name : CStr) (linked : Bool) : Epsock :=
  if known name then ⟨known, linked, some name⟩
  else
    let known := rtEnsureEp known name
    ⟨known, known name && linked, none⟩

/-- What a message is returned to. -/
inductive RtsTarget where
  | nobody
  /-- The descriptor that the message came with, which is not that of an endpoint. -/
  | arrived
  | endpoint (name : CStr)

/-- What `rmr_rts_msg` finds. -/
structure RtsAim where
  known : CStr → Bool
  target : RtsTarget
  /-- The endpoint whose counters are to be updated. -/
  ep : Option CStr

/-- What `rmr_rts_msg` looks up: whether the endpoints of the name and of the address are linked is
given. -/
def rtsAim (order : ByteOrder) (known : CStr → Bool) (msg : Mbuf)
    (srcLinked ipLinked : Bool) : RtsAim :=
  let src := msg.tpBuf.name HdrField.src.offset
  let byName := utaEpsockByname known src srcLinked
  if byName.ok then ⟨byName.known, .endpoint src, byName.uepp⟩
  else if 0 ≤ msg.rtsFd then ⟨byName.known, .arrived, byName.uepp⟩
  else if 2 < hdrGet order msg.tpBuf .rmrVer then
    let ip := msg.tpBuf.name HdrField.srcip.offset
    let byIp := utaEpsockByname byName.known ip ipLinked
    ⟨byIp.known, if byIp.ok then .endpoint ip else .nobody, byIp.uepp⟩
  else ⟨byName.known, .nobody, byName.uepp⟩

/-- `rmr_rts_msg` with what it looked up. -/
def countedRts (conf : SendConf) (left : Leftover) (draft : Draft) (counts : EpCounts)
    (aim : RtsAim)
    (result : SendResult) : Except Fault (Option Draft × EpCounts) :=
  match aim.target with
  | .nobody => do
    let back ← rmrRtsMsg conf left draft none
    return (back, counts)
  | _ => do
    let back ← rmrRtsMsg conf left draft (some result)
    return (back, countSent counts back aim.ep)

/-- The counters of a process. -/
structure CountSys where
  counts : EpCounts
  known : CStr → Bool
  /-- Not in the code: every send to an endpoint that was attempted. -/
  sends : List EpSend

/-- What happens: a route table brings an endpoint, or the application sends a message. -/
inductive CountEvent where
  | ensure (name : CStr)
  | send (draft : Draft) (groups : List (Option EpSend))
  | rts (draft : Draft) (srcLinked ipLinked : Bool) (result : SendResult)
  | call (draft : Draft) (groups : List (Option EpSend))
  | mtCall (draft : Draft) (callId : Int) (groups : List (Option EpSend))
  | whCall (draft : Draft) (callId : Int) (ep : CStr) (wormhole : Wormhole)

/-- The sends to endpoints among the groups. -/
def epSends (groups : List (Option EpSend)) : List EpSend := groups.filterMap id

/-- The send to the endpoint of a wormhole, if that is open. -/
def Wormhole.epSends (ep : CStr) : Wormhole → List EpSend
  | .noneOpen => []
  | .invalid => []
  | .open_ result => [(ep, result)]

/-- The send to an endpoint that a return is, if it is one. -/
def RtsTarget.epSends (result : SendResult) : RtsTarget → List EpSend
  | .nobody => []
  | .arrived => []
  | .endpoint name => [(name, result)]

namespace CountSys

/-- Nothing was sent, to whatever endpoints there are. -/
def init (known : CStr → Bool) : CountSys where
  counts := fun _ _ => 0
  known := known
  sends := []

/-- Sends were attempted, and counted. -/
def sent (sys : CountSys) (counts : EpCounts) (sends : List EpSend) : CountSys :=
  { sys with counts := counts, sends := sys.sends ++ sends }

/-- One event. -/
def step (conf : SendConf) (left : Leftover) (sys : CountSys) : CountEvent → Except Fault CountSys
  | .ensure name => .ok { sys with known := rtEnsureEp sys.known name }
  | .send draft groups => do
    let back ← countedSend conf left draft sys.counts groups
    return sys.sent back.2 (epSends groups)
  | .rts draft srcLinked ipLinked result => do
    let aim := rtsAim conf.order sys.known draft.msg srcLinked ipLinked
    let back ← countedRts conf left draft sys.counts aim result
    return { sys with known := aim.known }.sent back.2 (aim.target.epSends result)
  | .call draft groups => do
    let back ← countedCall conf left draft sys.counts 1 groups
    return sys.sent back.2 (epSends groups)
  | .mtCall draft callId groups =>
    if maxCallId < callId ∨ callId < 2 then .ok sys
    else do
      let back ← countedCall conf left draft sys.counts (UInt8.ofNat callId.toNat) groups
      return sys.sent back.2 (epSends groups)
  | .whCall draft callId ep wormhole => do
    -- Nothing is counted on this way.
    let _ ← rmrWhCall conf left draft callId wormhole
    return sys.sent sys.counts (wormhole.epSends ep)

/-- Events one after the other. -/
def run (conf : SendConf) (left : Leftover) (known : CStr → Bool) (events : List CountEvent) :
    Except Fault CountSys :=
  events.foldlM (step conf left) (init known)

end CountSys

/-- The counter that is for what a send comes to. -/
def SendResult.counter : SendResult → EpCounter
  | .ok => .good
  | .blocked => .trans
  | .failed => .fail

/-- The counters tell what was sent to each endpoint, by what that came to. -/
structure CountSys.Tells (sys : CountSys) : Prop where
  each : ∀ ep counter, sys.counts ep counter =
    sys.sends.countP fun send => decide (send.1 = ep ∧ send.2.counter = counter)
  total : ∀ ep, sys.counts ep .good + sys.counts ep .trans + sys.counts ep .fail =
    sys.sends.countP fun send => decide (send.1 = ep)

/-- The states that are counted in a fan-out are those of its sends: that of a message when a group
is not the last one and sending to it does not go well, and the last send leaves a state. -/
def FanTold (noAlloc : Bool) (state : MsgState) : List (Option EpSend) → Prop
  | [] => True
  | none :: groups => FanTold noAlloc .noEndpt groups
  | [some send] => noAlloc = true → send.2 ≠ .ok
  | some send :: groups => (send.2 ≠ .ok → state.counter = send.2.counter) ∧
      FanTold noAlloc (if send.2 = .ok then .ok else state) groups

instance decidableFanTold (noAlloc : Bool) : (state : MsgState) → (groups : List (Option EpSend)) →
    Decidable (FanTold noAlloc state groups)
  | _, [] => isTrue trivial
  | _, none :: groups => decidableFanTold noAlloc .noEndpt groups
  | _, [some send] => inferInstanceAs (Decidable (noAlloc = true → send.2 ≠ .ok))
  | state, some send :: group :: groups =>
    have := decidableFanTold noAlloc (if send.2 = .ok then .ok else state) (group :: groups)
    inferInstanceAs (Decidable ((send.2 ≠ .ok → state.counter = send.2.counter) ∧
      FanTold noAlloc (if send.2 = .ok then .ok else state) (group :: groups)))

/-- What is counted for a return is the send to its target. -/
def RtsAim.Told (aim : RtsAim) (noAlloc : Bool) (result : SendResult) : Prop :=
  match aim.target with
  | .nobody => True
  | .arrived => aim.ep = none ∨ noAlloc = true ∧ result = .ok
  | .endpoint name => aim.ep = some name ∧ (noAlloc = true → result ≠ .ok)

instance decidableAimTold (noAlloc : Bool) (result : SendResult) :
    (aim : RtsAim) → Decidable (aim.Told noAlloc result)
  | ⟨_, .nobody, _⟩ => isTrue trivial
  | ⟨_, .arrived, ep⟩ => inferInstanceAs (Decidable (ep = none ∨ noAlloc = true ∧ result = .ok))
  | ⟨_, .endpoint name, ep⟩ =>
    inferInstanceAs (Decidable (ep = some name ∧ (noAlloc = true → result ≠ .ok)))

/-- What an event counts is what it sends. -/
def CountSys.Told (conf : SendConf) (sys : CountSys) : CountEvent → Prop
  | .ensure _ => True
  | .send draft groups => FanTold draft.msg.noAlloc draft.msg.state groups
  | .rts draft srcLinked ipLinked result =>
    (rtsAim conf.order sys.known draft.msg srcLinked ipLinked).Told draft.msg.noAlloc result
  | .call draft groups => FanTold true draft.msg.state groups
  | .mtCall draft callId groups =>
    2 ≤ callId → callId ≤ maxCallId → FanTold true draft.msg.state groups
  | .whCall _ _ _ .noneOpen => True
  | .whCall _ _ _ .invalid => True
  | .whCall _ _ _ (.open_ _) => False

instance decidableTold (conf : SendConf) (sys : CountSys) :
    (event : CountEvent) → Decidable (sys.Told conf event)
  | .ensure _ => isTrue trivial
  | .send draft groups => decidableFanTold draft.msg.noAlloc draft.msg.state groups
  | .rts draft _ _ result => decidableAimTold draft.msg.noAlloc result _
  | .call draft groups => decidableFanTold true draft.msg.state groups
  | .mtCall draft callId groups =>
    inferInstanceAs (Decidable (2 ≤ callId → callId ≤ maxCallId →
      FanTold true draft.msg.state groups))
  | .whCall _ _ _ .noneOpen => isTrue trivial
  | .whCall _ _ _ .invalid => isTrue trivial
  | .whCall _ _ _ (.open_ _) => isFalse id

end Rmr

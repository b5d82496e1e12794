import Rmr.Message.Api

/-! The chutes that callers wait on, and which of them a call or an answer goes to. -/

namespace Rmr

/-- `chute_t`: the address of the message that was delivered, with 0 for none, and what the
semaphore counts, if it was ever initialised. -/
structure Chute where
  mbuf : Nat
  barrier : Option Nat
  deriving DecidableEq

/-- The chutes, and what `init_mtcall` is to return. -/
structure ChuteInit where
  chutes : List Chute
  rc : Int

/-- One round of the loop of `init_mtcall`, where `sem_init` may fail. -/
def ChuteInit.round (semInit : Nat → Bool) (made : ChuteInit) (i : Nat) : ChuteInit :=
  let chutes := made.chutes.modify i fun chute => { chute with mbuf := 0 }
  if semInit i then
    { made with chutes := chutes.modify i fun chute => { chute with barrier := some 0 } }
  else { chutes := chutes, rc := -1 }

/-- The memory of the chutes before anything is put into it: any address may stand there. -/
def chuteMem (left : Nat → Nat) : List Chute :=
  (List.range (maxCallId.toNat + 1)).map fun i => ⟨left i, none⟩

/-- `init_mtcall`, with what memory there is for the chutes: the loop ends before the last of them.
-/
def initMtcall (mem : Option (Nat → Nat)) (semInit : Nat → Bool) : Option (List Chute) × Int :=
  match mem with
  | none => (none, 0)
  | some left =>
    let made := (List.range maxCallId.toNat).foldl (ChuteInit.round semInit) ⟨chuteMem left, 1⟩
    (some made.chutes, made.rc)

/-- What `mt_call` selects for an id: the chute that it waits on, and the request with the id in it.
-/
structure Waiting where
  chute : Int
  request : Except Fault Mbuf

/-- `mt_call` with an id, which is cut to a byte for the message. -/
def mtCallWaits (order : ByteOrder) (msg : Mbuf) (callId : Int) : Waiting where
  chute := callId
  request := msg.request order (UInt8.ofInt callId)

/-- What the functions that call come to before they send: only `rmr_mt_call` looks at the id. -/
def Calling.waits (order : ByteOrder) (msg : Mbuf) : Calling → Option Waiting
  | .call _ => some (mtCallWaits order msg 1)
  | .mtCall callId _ =>
    if maxCallId < callId ∨ callId < 2 then none else some (mtCallWaits order msg callId)
  | .whCall _ .noneOpen => none
  | .whCall _ .invalid => none
  | .whCall callId (.open_ _) => some (mtCallWaits order { msg with state := .ok } callId)

/-- What the request is handed to. -/
def Calling.sends (conf : SendConf) (left : Leftover) (draft : Draft) :
    Calling → Except Fault (Option Draft)
  | .call groups => mtosendMsg conf left draft groups
  | .mtCall _ groups => mtosendMsg conf left draft groups
  | .whCall _ .noneOpen => .ok (some draft)
  | .whCall _ .invalid => .ok (some draft)
  | .whCall _ (.open_ result) => trySend conf left draft result

/-- What selects a chute: a call with a message, or a frame that was received. -/
inductive ChuteUse where
  | call (msg : Mbuf) (calling : Calling)
  | inbound (rawMsg : Block) (msgSize fd : Int)

/-- There is such a chute, and it has no message, and a semaphore that counts nothing. -/
structure ChuteReady (chutes : Option (List Chute)) (index : Int) : Prop where
  low : 0 ≤ index
  high : index ≤ maxCallId
  init : ∃ made, chutes = some made ∧ made[index.toNat]? = some ⟨0, some 0⟩

/-- The chute that is selected is ready, and the id in a request is its index. -/
def ChuteUse.Safe (conf : RcvConf) (chutes : Option (List Chute)) : ChuteUse → Prop
  | .call msg calling => ∀ waiting, calling.waits conf.order msg = some waiting →
    ChuteReady chutes waiting.chute ∧ ∀ request, waiting.request = .ok request →
      ((request.tpBuf.byte (data1Addr conf.order msg.tpBuf)).toNat : Int) = waiting.chute
  | .inbound rawMsg msgSize fd => ∀ callId mbuf,
    buf2mbuf conf rawMsg msgSize fd = .ok (.chute callId mbuf) → ChuteReady chutes callId.toNat

/-- An id is not that of the last chute, and its chute could be initialised. -/
structure ChuteMade (mem : Option (Nat → Nat)) (semInit : Nat → Bool) (callId : Int) : Prop where
  low : 0 ≤ callId
  high : callId < maxCallId
  allocated : mem ≠ none
  inited : semInit callId.toNat = true

/-- A call has such an id, where it gets as far as a chute; and a frame that is an answer has. -/
def ChuteUse.Vetted (conf : RcvConf) (mem : Option (Nat → Nat)) (semInit : Nat → Bool) :
    ChuteUse → Prop
  | .call _ (.call _) => ChuteMade mem semInit 1
  | .call _ (.mtCall callId _) => 2 ≤ callId → callId ≤ maxCallId → ChuteMade mem semInit callId
  | .call _ (.whCall _ .noneOpen) => True
  | .call _ (.whCall _ .invalid) => True
  | .call _ (.whCall callId (.open_ _)) => ChuteMade mem semInit callId
  | .inbound rawMsg msgSize _ =>
    lengthsFit conf.order rawMsg msgSize →
    InInt (msgSize - toInt (rmrHdrLen conf.order rawMsg)) →
    isCall conf.order rawMsg = false → rmrD1Len conf.order rawMsg ≠ 0 →
    data1Addr conf.order rawMsg < rawMsg.size →
    rawMsg.byte (data1Addr conf.order rawMsg) ≠ 0 →
    ChuteMade mem semInit (rawMsg.byte (data1Addr conf.order rawMsg)).toNat

end Rmr

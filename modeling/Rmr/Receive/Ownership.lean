import Rmr.Receive.Chute
import Rmr.Receive.Deliver

/-! All chutes with their callers, and what becomes of each message that was put into one. -/

namespace Rmr

/-- A chute with its caller, and which messages they have; messages are numbered as they come. -/
structure OwnedChute where
  run : CallRun
  /-- The message that `chute->mbuf` points to. -/
  held : Option Nat
  /-- The message that the caller took. -/
  took : Option Nat

namespace OwnedChute

/-- The caller goes on. -/
def caller (slot : OwnedChute) (sent : Bool) (wait : WaitRet) : OwnedChute where
  run := slot.run.caller sent wait
  held :=
    match slot.run.pc with
    | .clearNil | .dropNil | .takeNil => none
    | _ => slot.held
  took :=
    match slot.run.pc with
    | .take => slot.held
    | _ => slot.took

/-- What the caller frees as it goes on: a delayed message, or one that does not answer its request.
-/
def freeing (slot : OwnedChute) : List Nat :=
  match slot.run.pc with
  | .clearFree | .dropFree => slot.held.toList
  | _ => []

/-- What the caller returns as it goes on. -/
def returning (slot : OwnedChute) : List Nat :=
  match slot.run.pc with
  | .takeNil => slot.took.toList
  | _ => []

/-- A message is put into the chute, whatever is there. -/
def store (slot : OwnedChute) (num : Nat) (msg : Mbuf) : OwnedChute :=
  { slot with run := slot.run.step (.store msg), held := some num }

end OwnedChute

/-- The chutes, and the thread that receives. -/
structure Chutes where
  slots : UInt8 → OwnedChute
  /-- The chute that the receive thread has put a message into and did not post yet. -/
  posting : Option UInt8
  /-- The number of the next message. -/
  next : Nat
  /-- The messages that were given to `rmr_free_msg`. -/
  freed : List Nat
  /-- The messages that were returned to a caller. -/
  returned : List Nat

/-- What happens at the chutes. -/
inductive ChuteEvent where
  /-- An application calls. -/
  | call (callId : UInt8) (request : Mbuf)
  /-- The caller of a chute goes on; what sending or waiting comes to if that is next. -/
  | caller (callId : UInt8) (sent : Bool) (wait : WaitRet)
  /-- `buf2mbuf` is done with a message up to the post. -/
  | inbound (delivery : Delivery)
  | post

namespace Chutes

/-- Nothing came, and nobody has called. -/
def init (msg : Mbuf) : Chutes where
  slots := fun _ => ⟨CallRun.init msg, none, none⟩
  posting := none
  next := 0
  freed := []
  returned := []

/-- The chutes with one of them changed. -/
def withSlot (chutes : Chutes) (callId : UInt8) (slot : OwnedChute) : Chutes :=
  { chutes with slots := Function.update chutes.slots callId slot }

/-- One event. -/
def step (chutes : Chutes) : ChuteEvent → Chutes
  | .call callId request =>
    let slot := chutes.slots callId
    chutes.withSlot callId { slot with run := slot.run.step (.call request) }
  | .caller callId sent wait =>
    let slot := chutes.slots callId
    { chutes.withSlot callId (slot.caller sent wait) with
      freed := chutes.freed ++ slot.freeing
      returned := chutes.returned ++ slot.returning }
  | .inbound delivery =>
    match delivery, chutes.posting with
    -- One thread receives, so that the next message comes after the post.
    | .chute callId msg, none =>
      { chutes.withSlot callId ((chutes.slots callId).store chutes.next msg) with
        posting := some callId
        next := chutes.next + 1 }
    -- Other messages are dropped, or queued as normal ones.
    | _, _ => chutes
  | .post =>
    match chutes.posting with
    | none => chutes
    | some callId =>
      let slot := chutes.slots callId
      { chutes.withSlot callId { slot with run := slot.run.step .post } with posting := none }

/-- How often a message was freed or returned. -/
def fate (chutes : Chutes) (num : Nat) : Nat :=
  chutes.freed.count num + chutes.returned.count num

end Chutes

end Rmr

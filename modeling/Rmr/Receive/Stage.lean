import Rmr.Receive.River

/-! What the receive side is for: each connection is a sequence of bytes that is cut into frames. -/

namespace Rmr

/-- The message size announced by the first bytes of a message. -/
def announced (order : ByteOrder) (pending : List UInt8) : Int :=
  toInt (extractMlen order (Block.ofList pending) 0)

/-- A river, with no memory in sight. -/
inductive RiverView where
  /-- Nothing has arrived on the connection. -/
  | new
  /-- A frame announced a negative size, and the connection is no longer listened to. -/
  | reset
  /-- Bytes of the frame in progress. -/
  | flow (bytes : List UInt8)

/-- What can be said of the next frame from the bytes that are there. -/
inductive NextFrame where
  /-- More bytes are needed. -/
  | waits
  /-- The announced size is negative. -/
  | resets
  /-- The size is one that the receive side can not cope with. -/
  | fails
  /-- The frame is there. -/
  | whole (size : Nat)

/-- The memory a frame of some size is gathered in. -/
def RcvConf.room (conf : RcvConf) (size : Int) : Int :=
  if conf.usual < size then size + 128 else conf.usual

/-- Sizes that the receive side can not cope with, from bytes that were held and those arriving. -/
def Unfit (conf : RcvConf) (held rest : List UInt8) : Prop :=
  let size := announced conf.order (held ++ rest)
  (held ≠ [] ∧ size < tpSzfieldLen) ∨ (conf.usual < size ∧ intMax < size + 128) ∨
    intMax < (held ++ rest).length

instance (conf : RcvConf) (held rest : List UInt8) : Decidable (Unfit conf held rest) :=
  inferInstanceAs (Decidable (_ ∨ _ ∨ _))

/-- The next frame of a connection, from bytes that were held and those arriving. -/
def nextFrame (conf : RcvConf) (held rest : List UInt8) : NextFrame :=
  let size := announced conf.order (held ++ rest)
  if (held ++ rest).length < tpSzfieldLen then .waits
  else if size < 0 then .resets
  else if Unfit conf held rest then .fails
  else if (held ++ rest).length < size then .waits
  else .whole size.toNat

/-- The receive side as connections and the frames that came out of them. -/
structure Stage where
  rivers : Int → RiverView
  /-- Each frame with the descriptor it came from. -/
  frames : List (Int × List UInt8)
  /-- Bytes being taken in, with their descriptor. -/
  busy : Option (Int × List UInt8)

/-- At first all connections are new. -/
def Stage.init : Stage where
  rivers := fun _ => .new
  frames := []
  busy := none

/-- The bytes that a connection holds. -/
def RiverView.held : RiverView → List UInt8
  | .flow bytes => bytes
  | _ => []

/-- Bytes arrive. -/
def Stage.data (stage : Stage) (fd : Int) (chunk : List UInt8) : Stage :=
  if chunk.length = 0 ∨ fd < 0 then stage
  else
    match stage.rivers fd with
    | .reset => stage
    | .new => { stage with
        rivers := Function.update stage.rivers fd (.flow [])
        busy := some (fd, chunk) }
    | .flow _ => { stage with busy := some (fd, chunk) }

/-- The bytes arriving are looked at for the next frame. -/
def Stage.pass (conf : RcvConf) (stage : Stage) (fd : Int) (rest : List UInt8) : Option Stage :=
  let held := (stage.rivers fd).held
  match nextFrame conf held rest with
  | .waits => some { stage with
      rivers := Function.update stage.rivers fd (.flow (held ++ rest))
      busy := none }
  | .resets => some { stage with
      rivers := Function.update stage.rivers fd .reset
      busy := none }
  | .fails => none
  | .whole size => some {
      rivers := Function.update stage.rivers fd (.flow [])
      frames := stage.frames ++ [(fd, (held ++ rest).take size)]
      busy := if size < (held ++ rest).length then some (fd, (held ++ rest).drop size) else none }

/-- A connection is lost. -/
def Stage.disc (conf : RcvConf) (stage : Stage) (fd : Int) : Stage :=
  if (0 ≤ fd ∧ fd < conf.nrivers) ∨ 0 < fd then
    { stage with rivers := Function.update stage.rivers fd .new }
  else stage

/-- One step of the receive thread, as it concerns the connections. -/
def Stage.step (conf : RcvConf) (stage : Stage) : RcvStep → Option Stage
  | .data fd chunk => match stage.busy with
    | none => some (stage.data fd chunk)
    | some _ => some stage
  | .pass => match stage.busy with
    | none => some stage
    | some (fd, rest) => stage.pass conf fd rest
  | .disc fd => match stage.busy with
    | none => some (stage.disc conf fd)
    | some _ => some stage

/-- A run of the receive thread, as it concerns the connections. -/
def Stage.run (conf : RcvConf) (steps : List RcvStep) : Option Stage :=
  steps.foldlM (fun stage step => stage.step conf step) Stage.init

end Rmr

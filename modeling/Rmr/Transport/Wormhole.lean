import Rmr.Message.Pool
import Rmr.Route.Table

/-! Wormholes: the table of the endpoints that an application sends to directly. -/

namespace Rmr

/-- What wormholes need of a context. An endpoint stands for its name: there is one for each name in
the endpoint hash, which all tables share. -/
structure WhCtx where
  /-- `ephash`: the endpoints made so far. -/
  ephash : List CStr
  /-- The endpoints that have a connection. -/
  opened : CStr → Bool
  /-- The endpoint list, once a wormhole was opened; `nalloc` is its length. -/
  wormholes : Option (List (Option CStr))

/-- What the loop of `rmr_wh_open` finds. -/
inductive WhSlot where
  /-- The endpoint is there and open. -/
  | live (whid : Nat)
  /-- The place to put the endpoint at: its own one, the first that is empty, or behind them all. -/
  | place (whid : Nat)
  deriving DecidableEq

/-- The rest of the loop of `rmr_wh_open`, from a place on. -/
def whScan (ep : CStr) (isOpen : Bool) (nalloc : Nat) :
    List (Option CStr) → Nat → Nat → WhSlot
  | [], _, whid => .place whid
  | slot :: slots, i, whid =>
    -- The first open slot is saved should we need it.
    let whid := if whid = nalloc ∧ slot = none then i else whid
    if slot = some ep then if isOpen then .live i else .place i
    else whScan ep isOpen nalloc slots (i + 1) whid

/-- `wh_extend`: more places, all of them empty. -/
def whExtend (eps : List (Option CStr)) : List (Option CStr) := eps ++ List.replicate 16 none

/-- The endpoint in a list of wormholes at an id, if it is in range. -/
def slotAt (eps : List (Option CStr)) (whid : Int) : Option CStr :=
  if whid < 0 then none else eps[whid.toNat]?.join

namespace WhCtx

/-- Nothing was opened yet. -/
def init : WhCtx where
  ephash := []
  opened := fun _ => false
  wormholes := none

/-- `wh_init`. -/
def whInit (ctx : WhCtx) : List (Option CStr) := ctx.wormholes.getD (List.replicate 16 none)

/-- An endpoint gets a connection, or loses it. -/
def setOpen (ctx : WhCtx) (ep : CStr) (isOpen : Bool) : WhCtx :=
  { ctx with opened := Function.update ctx.opened ep isOpen }

/-- `rmr_wh_open`, when a connection that is started comes up or not; all allocations succeed. -/
def rmrWhOpen (ctx : WhCtx) (target : Option CStr) (connects : Bool) : WhCtx × Int :=
  match target with
  | none => (ctx, -1)
  | some target =>
    if target = [] then (ctx, -1)
    else
      let eps := ctx.whInit
      match RtCtx.rtEnsureEp ctx.ephash true target with
      | (ephash, none) => ({ ctx with ephash := ephash, wormholes := some eps }, -1)
      | (ephash, some ep) =>
        match whScan ep (ctx.opened ep) eps.length eps 0 eps.length with
        | .live whid => ({ ctx with ephash := ephash, wormholes := some eps }, whid)
        | .place whid =>
          let eps := if eps.length ≤ whid then whExtend eps else eps
          -- `rt_link2_ep`: there is nothing to do if it is open already.
          if ctx.opened ep = false ∧ connects = false then
            ({ ctx with ephash := ephash, wormholes := some eps }, -1)
          else
            ({ ctx.setOpen ep true with
              ephash := ephash
              wormholes := some (eps.set whid (some ep)) }, whid)

/-- The endpoint that a wormhole id refers to. -/
def refers (ctx : WhCtx) (whid : Int) : Option CStr := ctx.wormholes.bind (slotAt · whid)

/-- The checks that are made before anything is sent: the endpoint, or the state of the message. -/
def whCheck (ctx : WhCtx) (whid : Int) : Except MsgState CStr :=
  if ctx.wormholes = none then .error .noWhOpen
  else
    match ctx.refers whid with
    | none => .error .whid
    | some ep => .ok ep

/-- A session that is gone is opened again before something is sent to an endpoint. -/
def whReopen (ctx : WhCtx) (ep : CStr) (connects : Bool) : WhCtx :=
  if ctx.opened ep then ctx else (ctx.rmrWhOpen (some ep) connects).1

/-- `rmr_wh_send_msg`, as far as wormholes are concerned, and what sending came to if it was tried.
-/
def rmrWhSendMsg (ctx : WhCtx) (whid : Int) (hasHeader connects : Bool) (result : SendResult) :
    WhCtx × Option SendResult :=
  match ctx.whCheck whid with
  | .error _ => (ctx, none)
  | .ok ep => if hasHeader = false then (ctx, none) else (ctx.whReopen ep connects, some result)

/-- `rmr_wh_call`, likewise. -/
def rmrWhCall (ctx : WhCtx) (whid : Int) (hasHeader connects : Bool) : WhCtx :=
  match ctx.whCheck whid with
  | .error _ => ctx
  | .ok ep => if hasHeader = false then ctx else ctx.whReopen ep connects

/-- `rmr_wh_close`: the session may be needed by others, and is not dropped. -/
def rmrWhClose (ctx : WhCtx) (whid : Int) : WhCtx :=
  match ctx.wormholes with
  | none => ctx
  | some eps =>
    if (eps.length : Int) ≤ whid ∨ whid < 0 then ctx
    else { ctx with wormholes := some (eps.set whid.toNat none) }

end WhCtx

/-- What happens to the wormholes of a context. -/
inductive WhEvent where
  | open_ (target : Option CStr) (connects : Bool)
  | close (whid : Int)
  | send (whid : Int) (hasHeader connects : Bool) (result : SendResult)
  | call (whid : Int) (hasHeader connects : Bool)
  /-- A connection to an endpoint comes up for another reason, or goes down. -/
  | link (ep : CStr) (isOpen : Bool)

/-- The wormholes that an application holds: what it opened each id for that it did not close. -/
abbrev Held := Int → Option CStr

/-- The context, with what the application holds. -/
structure WhSys where
  ctx : WhCtx
  held : Held

namespace WhSys

/-- No wormhole was opened. -/
def init : WhSys := ⟨.init, fun _ => none⟩

/-- One event; an id that is returned is held for the target it was opened for. -/
def step (sys : WhSys) : WhEvent → WhSys
  | .open_ target connects =>
    let opened := sys.ctx.rmrWhOpen target connects
    { ctx := opened.1
      held := if opened.2 < 0 then sys.held else Function.update sys.held opened.2 target }
  | .close whid => ⟨sys.ctx.rmrWhClose whid, Function.update sys.held whid none⟩
  | .send whid hasHeader connects result =>
    { sys with ctx := (sys.ctx.rmrWhSendMsg whid hasHeader connects result).1 }
  | .call whid hasHeader connects => { sys with ctx := sys.ctx.rmrWhCall whid hasHeader connects }
  | .link ep isOpen => { sys with ctx := sys.ctx.setOpen ep isOpen }

/-- Events one after the other. -/
def run (events : List WhEvent) : WhSys := events.foldl step init

end WhSys

/-- What an application may rely on when it opens a wormhole. -/
structure Opens (sys : WhSys) (target : CStr) (connects : Bool) : Prop where
  /-- The id is one of those allocated by then. -/
  ranged : 0 ≤ (sys.ctx.rmrWhOpen (some target) connects).2 →
    ∃ eps, (sys.ctx.rmrWhOpen (some target) connects).1.wormholes = some eps ∧
      (sys.ctx.rmrWhOpen (some target) connects).2 < eps.length
  /-- A target that there is a connection to, or that connects now, has an id from then on. -/
  given : target ≠ [] → (sys.ctx.opened target = true ∨ connects = true) →
    0 ≤ (sys.ctx.rmrWhOpen (some target) connects).2 ∧
      (sys.ctx.rmrWhOpen (some target) connects).1.refers
        (sys.ctx.rmrWhOpen (some target) connects).2 = some target
  /-- A target that has an id keeps it. -/
  again : ∀ whid, sys.held whid = some target → (sys.ctx.opened target = true ∨ connects = true) →
    (sys.ctx.rmrWhOpen (some target) connects).2 = whid
  /-- An id that is live for another target is not given out. -/
  fresh : ∀ whid other, sys.held whid = some other → other ≠ target →
    (sys.ctx.rmrWhOpen (some target) connects).2 ≠ whid
  /-- An attempt that fails changes no id. -/
  failed : (sys.ctx.rmrWhOpen (some target) connects).2 < 0 →
    ∀ whid, (sys.ctx.rmrWhOpen (some target) connects).1.refers whid = sys.ctx.refers whid
  /-- The list is kept as it is but for the id that is returned, and what is added to it is empty.
  -/
  extends_ : ∀ eps, sys.ctx.wormholes = some eps → ∃ more,
    (sys.ctx.rmrWhOpen (some target) connects).1.wormholes =
      some (if (sys.ctx.rmrWhOpen (some target) connects).2 < 0 then
        eps ++ List.replicate more none
      else (eps ++ List.replicate more none).set
        (sys.ctx.rmrWhOpen (some target) connects).2.toNat (some target))

end Rmr

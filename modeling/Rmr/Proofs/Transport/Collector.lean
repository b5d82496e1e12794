import Rmr.Lib.Run
import Rmr.Proofs.Transport.Wormhole
import Rmr.Transport.Collector

/-! When the collector leaves the wormholes of the application alone. -/

namespace Rmr

/-- A close of an id that refers to nothing changes nothing. -/
theorem WhCtx.rmrWhClose_same {ctx : WhCtx} {whid : Int} (nothing : ctx.refers whid = none) :
    ctx.rmrWhClose whid = ctx := by
  unfold WhCtx.rmrWhClose
  cases list : ctx.wormholes with
  | none => rfl
  | some eps =>
    dsimp only
    split
    · rfl
    · -- The place was empty before.
      rename_i inside
      obtain ⟨place, rfl⟩ := Int.eq_ofNat_of_zero_le (by omega : 0 ≤ whid)
      have within : place < eps.length := by omega
      have empty : eps[place] = none := by
        rw [WhCtx.refers, list, Option.bind_some, slotAt, if_neg (by omega), Int.toNat_natCast,
          List.getElem?_eq_getElem within] at nothing
        exact nothing
      rw [Int.toNat_natCast, ← empty, List.set_getElem_self, ← list]

namespace RtcSys

variable {conf : RtcConf} {sys : RtcSys}

/-- A request that is sent, or whose id refers to nothing, leaves the application's wormholes alone,
and no other one does. -/
theorem sendUpdateReq_user (sys : RtcSys) (connects : Bool) (result : SendResult) :
    (sys.sendUpdateReq connects result).user = sys.user ↔
      (sys.pvt.refers sys.rtgWhid = none ∨ result ≠ .ok →
        sys.user.ctx.refers sys.rtgWhid = none) := by
  unfold sendUpdateReq
  by_cases negative : sys.rtgWhid < 0
  · -- Nothing is sent, and the id refers to nothing.
    rw [if_pos negative]
    have nothing : sys.user.ctx.refers sys.rtgWhid = none := by
      rw [WhCtx.refers_whInit, slotAt, if_pos negative]
    simp [nothing]
  · rw [if_neg negative]
    -- The message is sent when the private id refers to something and the transport takes it.
    have sent : (sys.pvt.rmrWhSendMsg sys.rtgWhid true connects result).2 = some .ok ↔
        ¬ (sys.pvt.refers sys.rtgWhid = none ∨ result ≠ .ok) := by
      unfold WhCtx.rmrWhSendMsg WhCtx.whCheck
      cases list : sys.pvt.wormholes with
      | none => simp [WhCtx.refers, list]
      | some eps =>
        cases there : sys.pvt.refers sys.rtgWhid with
        | none => simp
        | some ep => simp
    by_cases fine : (sys.pvt.rmrWhSendMsg sys.rtgWhid true connects result).2 = some .ok
    · simp only [if_pos fine, true_iff]
      exact fun failed => absurd failed (sent.mp fine)
    · simp only [if_neg fine]
      have failed := not_not.mp fun works => fine (sent.mpr works)
      constructor
      · intro same _
        have closed := congrArg (fun user : WhSys => user.ctx.refers sys.rtgWhid) same
        rw [← closed]
        exact (WhCtx.refers_close ..).trans (if_pos rfl)
      · intro apart
        rw [WhCtx.rmrWhClose_same (apart failed)]

/-- Likewise for a request that opens the wormhole first. -/
theorem request_user (sys : RtcSys) (opens connects : Bool) (result : SendResult) :
    (sys.request conf opens connects result).user = sys.user ↔
      RtcEvent.Apart conf sys (.request opens connects result) := by
  unfold request RtcEvent.Apart requestWhid requestCtx
  split
  · exact sendUpdateReq_user ..
  · exact sendUpdateReq_user ..

/-- Acknowledgements leave the application's wormholes alone. -/
theorem sendRtAck_user (sys : RtcSys) (useRts : Bool) (rts : Option SendResult) (connects : Bool)
    (result : SendResult) : (sys.sendRtAck useRts rts connects result).user = sys.user := by
  unfold sendRtAck
  by_cases negative : sys.pvtRtgWhid < 0
  · rw [if_pos negative]
  · rw [if_neg negative]
    -- Whatever is sent, only the private context is worked on.
    generalize (if useRts = true then (sys.pvt, rts)
      else sys.pvt.rmrWhSendMsg sys.pvtRtgWhid true connects result) = sent
    dsimp only
    split
    · rfl
    · rfl

/-- So do alarms. -/
theorem utaAlarmSend_user (sys : RtcSys) (opens connects : Bool) (result : SendResult) :
    (sys.utaAlarmSend conf opens connects result).user = sys.user := by
  -- The alarm goes to the collector's own context, whatever comes of its send.
  unfold utaAlarmSend
  split
  · dsimp only
    split
    · rfl
    · rfl
  · rfl

/-- Events whose requests are apart do to the application's wormholes what it does itself. -/
theorem foldl_user (events : List RtcEvent) (sys : RtcSys)
    (apart : Throughout (step conf) (fun sys event => event.Apart conf sys) sys events) :
    (events.foldl (step conf) sys).user =
      (events.filterMap RtcEvent.own).foldl WhSys.step sys.user := by
  -- By induction on the events: a request that is apart leaves the application's wormholes alone.
  induction events generalizing sys with
  | nil => rfl
  | cons event events ih =>
    obtain ⟨first, rest⟩ := apart
    rw [List.foldl_cons, ih _ rest]
    cases event with
    | user event => rfl
    | request opens connects result =>
      rw [show (step conf sys (.request opens connects result)).user = sys.user from
        (request_user sys opens connects result).mpr first]
      rfl
    | ack useRts rts connects result =>
      rw [show (step conf sys (.ack useRts rts connects result)).user = sys.user from
        sendRtAck_user sys useRts rts connects result]
      rfl
    | alarm opens connects result =>
      rw [show (step conf sys (.alarm opens connects result)).user = sys.user from
        utaAlarmSend_user sys opens connects result]
      rfl
    | link ep isOpen => rfl

/-- In every run whose requests are apart the wormholes of the application are what it made them
itself, and the ids that it holds refer to what it opened them for. -/
theorem run_apart (conf : RtcConf) (events : List RtcEvent)
    (apart : Throughout (step conf) (fun sys event => event.Apart conf sys) init events) :
    (run conf events).user = WhSys.run (events.filterMap RtcEvent.own) ∧
      ∀ whid, (run conf events).user.ctx.refers whid = (run conf events).user.held whid := by
  -- The calls of the collector leave the wormholes of the application alone, so that they are those
  -- of its own run.
  have same : (run conf events).user = WhSys.run (events.filterMap RtcEvent.own) :=
    foldl_user events init apart
  refine ⟨same, ?_⟩
  rw [same]
  exact (WhSys.sound_run _).refers

/-- The route manager and the alarm manager at two addresses. -/
def confThere : RtcConf where
  rtgAddr := ['r', ':', '1']
  alarmEndpt := ['m', ':', '1']

/-- A request fails while the application has closed its only wormhole, and another one is sent
after it was opened again. -/
theorem run_apart_reopened :
    (run confThere [.user (.open_ (some ['a', ':', '1']) true), .request true true .ok,
      .user (.close 0), .request true true .failed, .user (.open_ (some ['b', ':', '1']) true),
      .request true true .ok]).user.ctx.refers 0 = some ['b', ':', '1'] := by
  -- The events are apart by evaluation, so that the theorem tells what the id refers to.
  have held := (run_apart confThere [.user (.open_ (some ['a', ':', '1']) true),
    .request true true .ok, .user (.close 0), .request true true .failed,
    .user (.open_ (some ['b', ':', '1']) true), .request true true .ok]
    ⟨trivial, fun fails => absurd fails (by decide +kernel), trivial, fun _ => by decide +kernel,
      trivial, fun fails => absurd fails (by decide +kernel), trivial⟩).2 0
  rw [held]
  rfl

/-- A request that fails takes the wormhole of the application away that has the same id. -/
theorem run_closes_user :
    (run confThere [.user (.open_ (some ['a', ':', '1']) true),
      .request true true .failed]).user.held 0 = some ['a', ':', '1'] ∧
    (run confThere [.user (.open_ (some ['a', ':', '1']) true),
      .request true true .failed]).user.ctx.refers 0 = none := by
  decide +kernel

end RtcSys

end Rmr

import Rmr.Route.Parse
import Rmr.Lib.RoundRobin

/-! The round robin selection of an endpoint, and what the groups of an entry must be like for it.
-/

namespace Rmr

/-- The groups of an entry as senders use them. -/
structure RrEntry where
  rrgroups : List (Option RrGroup)
  /-- `ep_idx`, the counter of each group. -/
  epIdx : Nat → UInt16

/-- An entry that was made just now: `uta_add_ep` clears the counter of a group. -/
def RrEntry.made (rrgroups : List (Option RrGroup)) : RrEntry where
  rrgroups := rrgroups
  epIdx := fun _ => 0

/-- What `uta_epsock_rr` gives its caller. -/
structure RrAnswer where
  /-- There is something in the next group slot. -/
  more : Bool
  /-- The endpoint selected, and its place in the group. -/
  pick : Option (Nat × CStr)
  /-- The place of the endpoint, counted from one; zero if there is no socket. -/
  state : Nat

/-- The place that is selected next, in a group with some endpoints in use. -/
def rrPlace (nused : Nat) (epIdx : UInt16) : Nat := if nused = 1 then 0 else epIdx.toNat % nused

/-- `uta_epsock_rr`; an endpoint is linked if it is open or can be opened now. -/
def utaEpsockRr (rte : RrEntry) (group : Int) (linked : CStr → Bool) :
    Except RtFault (RrEntry × RrAnswer) :=
  if group < 0 ∨ (rte.rrgroups.length : Int) ≤ group then .ok (rte, ⟨false, none, 0⟩)
  else
    match rte.rrgroups[group.toNat]? with
    | some (some rrg) =>
      let more := ((rte.rrgroups[group.toNat + 1]?).getD none).isSome
      if rrg.epts.length = 0 then .ok (rte, ⟨more, none, 0⟩)
      else
        let epIdx := rte.epIdx group.toNat
        let idx := rrPlace rrg.epts.length epIdx
        -- The counter moves only where there is a choice.
        let rte := if rrg.epts.length = 1 then rte
          else { rte with epIdx := Function.update rte.epIdx group.toNat (epIdx + 1) }
        match rrg.epts[idx]? with
        | some (some ep) => .ok (rte, ⟨more, some (idx, ep), if linked ep then idx + 1 else 0⟩)
        -- Whether the endpoint is open is looked up through the pointer.
        | _ => .error .nil
    -- Groups are taken to be contiguous, so nothing should be after a nil pointer.
    | _ => .ok (rte, ⟨false, none, 0⟩)

/-- One call: the group, and which endpoints are linked then. -/
abbrev RrCall := Int × (CStr → Bool)

/-- Calls one after the other, with the group and the answer of each. -/
def rrRun (rte : RrEntry) : List RrCall → Except RtFault (RrEntry × List (Int × RrAnswer))
  | [] => .ok (rte, [])
  | call :: calls => do
    let (rte, answer) ← utaEpsockRr rte call.1 call.2
    let (rte, answers) ← rrRun rte calls
    return (rte, (call.1, answer) :: answers)

/-- The places that were selected in a group. -/
def picksIn (group : Int) (answers : List (Int × RrAnswer)) : List Nat :=
  answers.filterMap fun answer => if answer.1 = group then answer.2.pick.map Prod.fst else none

/-- A group that an endpoint can be selected from. -/
structure RrGroup.Good (rrg : RrGroup) : Prop where
  used : 1 ≤ rrg.epts.length
  fits : rrg.epts.length ≤ maxEpGroup
  filled : none ∉ rrg.epts

/-- The groups come first, and each of them is good. -/
def GroupsGood (rrgroups : List (Option RrGroup)) : Prop :=
  ∃ (groups : List RrGroup) (more : Nat),
    rrgroups = groups.map some ++ List.replicate more none ∧ ∀ rrg ∈ groups, rrg.Good

/-- There is a group after a place. -/
def HasLater (rrgroups : List (Option RrGroup)) (group : Nat) : Prop :=
  ∃ later rrg, group < later ∧ rrgroups[later]? = some (some rrg)

/-- What an entry must be for those who send with it. -/
structure Serves (rrgroups : List (Option RrGroup)) : Prop where
  good : GroupsGood rrgroups
  /-- No nil endpoint is used, whatever the counters are and however often it is called. -/
  safe : ∀ (epIdx : Nat → UInt16) (calls : List RrCall), ∃ result,
    rrRun ⟨rrgroups, epIdx⟩ calls = .ok result
  /-- No more groups are promised exactly when there is none. -/
  promised : ∀ (epIdx : Nat → UInt16) (group : Nat) (linked : CStr → Bool),
    ∀ result ∈ (utaEpsockRr ⟨rrgroups, epIdx⟩ group linked).toOption,
      (result.2.more = true ↔ HasLater rrgroups group)
  /-- The test for a nil group means that there are no further groups. -/
  ended : ∀ group : Nat, rrgroups[group]? = some none → ¬ HasLater rrgroups group

/-- The names that `build_entry` adds to a group, each with its place among the tokens left of it.
-/
def addedNames (conf : RtConf) (gtok : CStr) : List (CStr × Nat) :=
  (utaRmipTokenise gtok conf.ipList 64 ',').zipIdx.filter fun tok => tok.1 ≠ conf.myName

/-- Those that find a group; the names before them were lost, as no group could be made. -/
def landedNames (conf : RtConf) (mem : Mem) (gtok : CStr × Nat) : List (CStr × Nat) :=
  (addedNames conf gtok.1).dropWhile fun tok => mem.group gtok.2 tok.2 = false

/-- The names that endpoints are asked for, and whether one could be made for each. -/
def askedNames (mem : Mem) (grp : Nat) (toks : List (CStr × Nat)) : List (CStr × Bool) :=
  toks.map fun tok => (tok.1, mem.ep grp tok.2)

/-- The names that all of some groups ask for. -/
def askedBy (conf : RtConf) (mem : Mem) (gtoks : List (CStr × Nat)) : List (CStr × Bool) :=
  gtoks.flatMap fun gtok => askedNames mem gtok.2 (landedNames conf mem gtok)

/-- Groups that `build_entry` fills with endpoints only. -/
structure NamesServe (conf : RtConf) (mem : Mem) (ephash : List CStr) (gtoks : List (CStr × Nat)) :
    Prop where
  /-- Every name that there is room for is not empty, and has an endpoint or gets one by then. -/
  named : ∀ before gtok after early tok late, gtoks = before ++ gtok :: after →
    landedNames conf mem gtok = early ++ tok :: late → early.length < maxEpGroup →
    tok.1 ≠ [] ∧ (tok.1 ∈ ephash ∨
      (tok.1, true) ∈ askedBy conf mem before ++ askedNames mem gtok.2 (early ++ [tok]))
  /-- A group that could not be made has none after it. -/
  made : ∀ before gtok after, gtoks = before ++ gtok :: after → landedNames conf mem gtok ≠ [] →
    ∀ earlier ∈ before, addedNames conf earlier.1 ≠ [] → landedNames conf mem earlier ≠ []

end Rmr

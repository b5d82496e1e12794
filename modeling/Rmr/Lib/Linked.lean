import Rmr.Lib.CInt
import Rmr.Lib.Run
import Mathlib.Tactic

/-! Doubly linked chains in memory, and the lists that they stand for. -/

namespace Rmr

/-- A cell of a chain, with the addresses of its neighbours. -/
structure Cell (α : Type*) where
  next : Option Nat
  prev : Option Nat
  item : α

/-- The cells in memory; there is none at an address that is not allocated. -/
abbrev Cells (α : Type*) := Nat → Option (Cell α)

namespace Cells
variable {α : Type} (mem : Cells α)

/-- The cell at an address. -/
def load (addr : Nat) : Except Fault (Cell α) :=
  match mem addr with
  | some cell => .ok cell
  | none => .error .freed

/-- A cell is written. -/
def store (addr : Nat) (cell : Cell α) : Cells α := Function.update mem addr (some cell)

/-- A cell is released. -/
def free (addr : Nat) : Cells α := Function.update mem addr none

/-- A cell gets another successor. -/
def setNext (addr : Nat) (next : Option Nat) : Except Fault (Cells α) := do
  let cell ← mem.load addr
  return mem.store addr { cell with next := next }

/-- The cell at an address, if there is one, gets another predecessor. -/
def setPrev (addr prev : Option Nat) : Except Fault (Cells α) :=
  match addr with
  | none => .ok mem
  | some addr => do
    let cell ← mem.load addr
    return mem.store addr { cell with prev := prev }

/-- The item of a cell is changed. -/
def setItem (addr : Nat) (change : α → α) : Except Fault (Cells α) := do
  let cell ← mem.load addr
  return mem.store addr { cell with item := change cell.item }

/-- What comes before gets another successor: that is the cell before, or else the head. -/
def joinNext (head before next : Option Nat) : Except Fault (Cells α × Option Nat) :=
  match before with
  | some prev => do return (← mem.setNext prev next, head)
  | none => .ok (mem, next)

/-- A cell is taken out of a chain and released. -/
def unlink (head : Option Nat) (addr : Nat) : Except Fault (Cells α × Option Nat) := do
  let cell ← mem.load addr
  let (mem, head) ← mem.joinNext head cell.prev cell.next
  let mem ← mem.setPrev cell.next cell.prev
  return (mem.free addr, head)

/-- A new cell is put in front of a chain. -/
def linkFront (head : Option Nat) (addr : Nat) (item : α) :
    Except Fault (Cells α × Option Nat) := do
  let mem ← (mem.store addr ⟨head, none, item⟩).setPrev head (some addr)
  return (mem, some addr)

/-- The first cell is taken off a chain and released. -/
def unlinkFront (addr : Nat) : Except Fault (Cells α × Option Nat) := do
  let cell ← mem.load addr
  let mem ← mem.setPrev cell.next none
  return (mem.free addr, cell.next)

/-- The address of the first cell with a matching item, from some cell on. -/
def search (matched : α → Bool) : Nat → Option Nat → Except Fault (Option Nat)
  | _, none => .ok none
  | 0, some _ => .error .spin
  | fuel + 1, some addr => do
    let cell ← mem.load addr
    if matched cell.item then return some addr else search matched fuel cell.next

end Cells

section
variable {α : Type} {mem : Cells α}

/-- The cells of a list, each linked with its neighbours, from what comes before them to what comes
after them. -/
def Seg (mem : Cells α) (before start : Option Nat) :
    List (Nat × α) → (last stop : Option Nat) → Prop
  | [], last, stop => last = before ∧ start = stop
  | entry :: rest, last, stop => start = some entry.1 ∧
    ∃ next, mem entry.1 = some ⟨next, before, entry.2⟩ ∧ Seg mem (some entry.1) next rest last stop

/-- The addresses of a list of cells. -/
def addrs (list : List (Nat × α)) : List Nat := list.map Prod.fst

/-- A whole chain. -/
def Linked (mem : Cells α) (head : Option Nat) (list : List (Nat × α)) : Prop :=
  (addrs list).Nodup ∧ ∃ last, Seg mem none head list last none

/-- Memory changed at none of the addresses of a list. -/
def Untouched (mem next : Cells α) (list : List (Nat × α)) : Prop :=
  ∀ addr ∈ addrs list, next addr = mem addr

variable {before start last stop : Option Nat} {list first rest : List (Nat × α)}

/-- A segment is one as long as its cells are not touched. -/
theorem Seg.untouched {next : Cells α} (seg : Seg mem before start list last stop)
    (same : Untouched mem next list) : Seg next before start list last stop := by
  -- By induction on the list: the cell of each entry is read from the same place as before.
  induction list generalizing before start with
  | nil => exact seg
  | cons entry rest ih =>
    obtain ⟨here, after, cell, goesOn⟩ := seg
    refine ⟨here, after, ?_, ih goesOn fun addr among => same addr (List.mem_cons_of_mem _ among)⟩
    rw [same entry.1 List.mem_cons_self]
    exact cell

/-- Cells in a row are those of a first part, and of the rest after it. -/
theorem seg_append : Seg mem before start (first ++ rest) last stop ↔
    ∃ middle next, Seg mem before start first middle next ∧ Seg mem middle next rest last stop := by
  -- By induction on the first part, which the predecessor and the address are handed through.
  induction first generalizing before start with
  | nil =>
    constructor
    · intro seg
      exact ⟨before, start, ⟨rfl, rfl⟩, seg⟩
    · rintro ⟨middle, next, ⟨rfl, rfl⟩, seg⟩
      exact seg
  | cons entry first ih =>
    constructor
    · rintro ⟨here, next, cell, goesOn⟩
      obtain ⟨middle, mid, one, other⟩ := ih.mp goesOn
      exact ⟨middle, mid, ⟨here, next, cell, one⟩, other⟩
    · rintro ⟨middle, mid, ⟨here, next, cell, one⟩, other⟩
      exact ⟨here, next, cell, ih.mpr ⟨middle, mid, one, other⟩⟩

/-- Every cell of a list is in memory. -/
theorem Seg.found (seg : Seg mem before start list last stop) {entry : Nat × α}
    (among : entry ∈ list) :
    ∃ next prev, mem entry.1 = some ⟨next, prev, entry.2⟩ := by
  -- By induction on the list: the entry is the head, or one of the rest.
  induction list generalizing before start with
  | nil => cases among
  | cons head rest ih =>
    obtain ⟨_, next, cell, goesOn⟩ := seg
    rcases List.mem_cons.mp among with same | later
    · rw [same]
      exact ⟨next, before, cell⟩
    · exact ih goesOn later

/-- Cells in a row start at the address of the first of them. -/
theorem Seg.starts (seg : Seg mem before start list last none) :
    start = list.head?.map Prod.fst := by
  -- An empty row has no address, and any other one starts at its first cell.
  cases list with
  | nil => exact seg.2
  | cons entry rest => exact seg.1

/-- A cell in a row is linked with the cell after it. -/
theorem Seg.cell {entry : Nat × α} (seg : Seg mem before start (first ++ entry :: rest) last none) :
    ∃ prev, mem entry.1 = some ⟨rest.head?.map Prod.fst, prev, entry.2⟩ := by
  -- The row is cut at the cell, and what is behind it starts at the next address.
  obtain ⟨middle, _, _, rfl, next, cell, after⟩ := seg_append.mp seg
  rw [← after.starts]
  exact ⟨middle, cell⟩

/-- Cells in a row end at the address of the last of them. -/
theorem Seg.ends (seg : Seg mem before start list last stop) :
    last = (list.getLast?.map Prod.fst).or before := by
  -- By induction on the list; the last cell of a longer one is the last of its rest.
  induction list generalizing before start with
  | nil => exact seg.1
  | cons entry rest ih =>
    obtain ⟨_, _, _, goesOn⟩ := seg
    rw [ih goesOn]
    cases rest with
    | nil => rfl
    | cons second rest =>
      rw [List.getLast?_cons_cons, List.getLast?_eq_some_getLast (List.cons_ne_nil second rest)]
      rfl

/-- A cell of a chain is linked with the cells before and after it. -/
theorem Linked.cell {head : Option Nat} {entry : Nat × α}
    (linked : Linked mem head (first ++ entry :: rest)) :
    mem entry.1 = some ⟨rest.head?.map Prod.fst, first.getLast?.map Prod.fst, entry.2⟩ := by
  -- The row is cut at the cell: what is in front of it ends at one link, the rest starts at the
  -- other.
  obtain ⟨_, last, seg⟩ := linked
  obtain ⟨middle, _, one, rfl, next, cell, after⟩ := seg_append.mp seg
  rw [← after.starts, ← Option.or_none (o := first.getLast?.map Prod.fst), ← one.ends]
  exact cell

/-- Nothing is left at the address of a cell that was taken out. -/
theorem Cells.unlink_freed {head head' : Option Nat} {addr : Nat} {next : Cells α}
    (unlinked : mem.unlink head addr = .ok (next, head')) : next addr = none := by
  -- The cell is freed after both of its neighbours were joined, so that no store comes behind it.
  unfold Cells.unlink at unlinked
  cases found : mem.load addr with
  | error fault =>
    rw [found] at unlinked
    cases unlinked
  | ok cell =>
    rw [found] at unlinked
    change (mem.joinNext head cell.prev cell.next >>= _) = _ at unlinked
    cases joined : mem.joinNext head cell.prev cell.next with
    | error fault =>
      rw [joined] at unlinked
      cases unlinked
    | ok out =>
      rw [joined] at unlinked
      change (out.1.setPrev cell.next cell.prev >>= _) = _ at unlinked
      cases set : out.1.setPrev cell.next cell.prev with
      | error fault =>
        rw [set] at unlinked
        cases unlinked
      | ok last =>
        rw [set] at unlinked
        cases unlinked
        exact Function.update_self _ _ _

/-- Storing elsewhere touches no cell of the list. -/
theorem untouched_store {addr : Nat} {cell : Option (Cell α)} (outside : addr ∉ addrs list) :
    Untouched mem (Function.update mem addr cell) list := by
  intro other among
  exact Function.update_of_ne (fun (same : other = addr) => outside (same ▸ among)) _ _

/-- Addresses are listed one after the other. -/
theorem addrs_append : addrs (first ++ rest) = addrs first ++ addrs rest := List.map_append

/-- The first cell of a row gets another predecessor. -/
theorem Seg.setPrev (seg : Seg mem before start list last none) (nodup : (addrs list).Nodup)
    (prev : Option Nat) :
    ∃ next, mem.setPrev start prev = .ok next ∧ (∃ last, Seg next prev start list last none) ∧
      ∀ addr ∉ addrs list, next addr = mem addr := by
  -- Without a first cell there is nothing to write; else only its predecessor is written.
  cases list with
  | nil =>
    obtain ⟨_, rfl⟩ := seg
    exact ⟨mem, rfl, ⟨prev, rfl, rfl⟩, fun _ _ => rfl⟩
  | cons entry rest =>
    obtain ⟨rfl, after, cell, goesOn⟩ := seg
    obtain ⟨fresh, _⟩ := List.nodup_cons.mp nodup
    refine ⟨mem.store entry.1 ⟨after, prev, entry.2⟩, ?_, ⟨last, rfl, after, ?_, ?_⟩, ?_⟩
    · show (do let cell ← mem.load entry.1; _) = _
      rw [Cells.load, cell]
      rfl
    · exact Function.update_self _ _ _
    · exact goesOn.untouched (untouched_store fresh)
    · intro addr outside
      exact Function.update_of_ne
        (fun (same : addr = entry.1) => outside (same ▸ List.mem_cons_self)) _ _

/-- The last cell of a row gets another successor; if there is none, that is the head. -/
theorem Seg.joinNext {head : Option Nat} (seg : Seg mem none head list last stop)
    (nodup : (addrs list).Nodup) (after : Option Nat) :
    ∃ next head', mem.joinNext head last after = .ok (next, head') ∧
    Seg next none head' list last after ∧
      ∀ addr ∉ addrs list, next addr = mem addr := by
  -- An empty row has no last cell, so that the head is written in its place.
  rcases List.eq_nil_or_concat list with rfl | ⟨first, entry, rfl⟩
  · obtain ⟨rfl, rfl⟩ := seg
    exact ⟨mem, after, rfl, ⟨rfl, rfl⟩, fun _ _ => rfl⟩
  · rw [List.concat_eq_append] at seg nodup ⊢
    obtain ⟨middle, mid, one, ⟨rfl, next, cell, rfl, rfl⟩⟩ := seg_append.mp seg
    have apart : entry.1 ∉ addrs first := by
      rw [addrs_append] at nodup
      exact fun among => (List.nodup_append.mp nodup).2.2 entry.1 among entry.1
        List.mem_cons_self rfl
    refine ⟨mem.store entry.1 ⟨after, middle, entry.2⟩, head, ?_, ?_, ?_⟩
    · show (do return (← mem.setNext entry.1 after, head)) = _
      rw [Cells.setNext, Cells.load, cell]
      rfl
    · refine seg_append.mpr
        ⟨middle, some entry.1, one.untouched (untouched_store apart), rfl, after, ?_,
        rfl, rfl⟩
      exact Function.update_self _ _ _
    · intro addr outside
      refine Function.update_of_ne (fun same => outside ?_) _ _
      rw [addrs_append, same]
      exact List.mem_append_right _ List.mem_cons_self

/-- Taking a cell out of a chain leaves the others linked. -/
theorem Linked.unlink {head : Option Nat} {entry : Nat × α}
    (linked : Linked mem head (first ++ entry :: rest)) :
    ∃ next head', mem.unlink head entry.1 = .ok (next, head') ∧ Linked next head' (first ++ rest) ∧
      ∀ addr ∉ addrs (first ++ entry :: rest), next addr = mem addr := by
  obtain ⟨nodup, last, seg⟩ := linked
  rw [addrs_append] at nodup
  obtain ⟨firstNodup, restNodup, apart⟩ := List.nodup_append.mp nodup
  obtain ⟨fresh, restNodup⟩ := List.nodup_cons.mp restNodup
  obtain ⟨middle, mid, one, rfl, after, cell, other⟩ := seg_append.mp seg
  -- First the cell before, or the head, is joined with what comes after.
  obtain ⟨mem₁, head₁, joined, one₁, same₁⟩ := one.joinNext firstNodup after
  have restApart : ∀ addr ∈ addrs rest, addr ∉ addrs first := fun addr among inFirst =>
    apart addr inFirst addr (List.mem_cons_of_mem _ among) rfl
  have other₁ : Seg mem₁ (some entry.1) after rest last none :=
    other.untouched fun addr among => same₁ addr (restApart addr among)
  -- Then the cell after is joined with what comes before.
  obtain ⟨mem₂, set, ⟨last₂, other₂⟩, same₂⟩ := other₁.setPrev restNodup middle
  have one₂ : Seg mem₂ none head₁ first middle after :=
    one₁.untouched fun addr among => same₂ addr fun inRest => restApart addr inRest among
  refine ⟨mem₂.free entry.1, head₁, ?_, ⟨?_, last₂, ?_⟩, ?_⟩
  · show (do
      let cell ← mem.load entry.1
      let (mem, head) ← mem.joinNext head cell.prev cell.next
      let mem ← mem.setPrev cell.next cell.prev
      return (mem.free entry.1, head)) = _
    rw [Cells.load, cell]
    show (mem.joinNext head middle after >>= _) = _
    rw [joined]
    show (mem₁.setPrev after middle >>= _) = _
    rw [set]
    rfl
  · rw [addrs_append]
    exact List.nodup_append.mpr
      ⟨firstNodup, restNodup, fun one inFirst other inRest => apart one inFirst other
        (List.mem_cons_of_mem _ inRest)⟩
  · refine (seg_append.mpr ⟨middle, after, one₂, other₂⟩).untouched (untouched_store ?_)
    rw [addrs_append]
    intro among
    rcases List.mem_append.mp among with inFirst | inRest
    · exact apart entry.1 inFirst entry.1 List.mem_cons_self rfl
    · exact fresh inRest
  · intro addr outside
    rw [addrs_append] at outside
    have notFirst : addr ∉ addrs first := fun among => outside (List.mem_append_left _ among)
    have notRest : addr ∉ addrs rest :=
      fun among => outside (List.mem_append_right _ (List.mem_cons_of_mem _ among))
    have notHere : addr ≠ entry.1 :=
      fun same => outside (List.mem_append_right _ (same ▸ List.mem_cons_self))
    rw [Cells.free, Function.update_of_ne notHere, same₂ addr notRest, same₁ addr notFirst]

/-- Taking off the first cell leaves the others linked. -/
theorem Linked.unlinkFront {head : Option Nat} {entry : Nat × α}
    (linked : Linked mem head (entry :: rest)) :
    head = some entry.1 ∧
      ∃ next head', mem.unlinkFront entry.1 = .ok (next, head') ∧ Linked next head' rest ∧
        ∀ addr ∉ addrs (entry :: rest), next addr = mem addr := by
  -- The second cell loses its predecessor and the first is freed, in that order.
  obtain ⟨nodup, last, rfl, after, cell, goesOn⟩ := linked
  obtain ⟨fresh, restNodup⟩ := List.nodup_cons.mp nodup
  obtain ⟨mem₁, set, ⟨last₁, goesOn₁⟩, same⟩ := goesOn.setPrev restNodup none
  refine ⟨rfl, mem₁.free entry.1, after, ?_, ⟨restNodup, last₁, ?_⟩, ?_⟩
  · show (do
      let cell ← mem.load entry.1
      let mem ← mem.setPrev cell.next none
      return (mem.free entry.1, cell.next)) = _
    rw [Cells.load, cell]
    show (mem.setPrev after none >>= _) = _
    rw [set]
    rfl
  · exact goesOn₁.untouched (untouched_store fresh)
  · intro addr outside
    obtain ⟨notHere, notRest⟩ := not_or.mp fun either => outside (List.mem_cons.mpr either)
    rw [Cells.free, Function.update_of_ne notHere, same addr notRest]

/-- A new cell in front is linked with the others. -/
theorem Linked.linkFront {head : Option Nat} (linked : Linked mem head list) {addr : Nat}
    (fresh : addr ∉ addrs list) (item : α) :
    ∃ next, mem.linkFront head addr item = .ok (next, some addr) ∧
      Linked next (some addr) ((addr, item) :: list) ∧
      ∀ other ∉ addrs ((addr, item) :: list), next other = mem other := by
  -- The new cell is stored at a fresh address, so that the old row is untouched by it.
  obtain ⟨nodup, last, seg⟩ := linked
  have seg₁ : Seg (mem.store addr ⟨head, none, item⟩) none head list last none :=
    seg.untouched (untouched_store fresh)
  obtain ⟨mem₂, set, ⟨last₂, seg₂⟩, same⟩ := seg₁.setPrev nodup (some addr)
  refine ⟨mem₂, ?_, ⟨List.nodup_cons.mpr ⟨fresh, nodup⟩, last₂, rfl, head, ?_, seg₂⟩, ?_⟩
  · rw [Cells.linkFront, set]
    rfl
  · rw [same addr fresh]
    exact Function.update_self _ _ _
  · intro other outside
    obtain ⟨notHere, notRest⟩ := not_or.mp fun either => outside (List.mem_cons.mpr either)
    rw [same other notRest]
    exact Function.update_of_ne notHere _ _

/-- A changed item leaves the chain linked. -/
theorem Linked.setItem {head : Option Nat} {entry : Nat × α}
    (linked : Linked mem head (first ++ entry :: rest)) (change : α → α) :
    ∃ next, mem.setItem entry.1 change = .ok next ∧
      Linked next head (first ++ (entry.1, change entry.2) :: rest) ∧
      ∀ addr ∉ addrs (first ++ entry :: rest), next addr = mem addr := by
  -- Only the cell in the middle is stored to, and its address is in neither of the two parts.
  obtain ⟨nodup, last, seg⟩ := linked
  have sameAddrs : addrs (first ++ (entry.1, change entry.2) :: rest) =
      addrs (first ++ entry :: rest) := by
    rw [addrs_append, addrs_append]
    rfl
  obtain ⟨middle, mid, one, rfl, after, cell, other⟩ := seg_append.mp seg
  have split := nodup
  rw [addrs_append] at split
  obtain ⟨_, restNodup, apart⟩ := List.nodup_append.mp split
  have inFirst : entry.1 ∉ addrs first :=
    fun among => apart entry.1 among entry.1 List.mem_cons_self rfl
  refine ⟨mem.store entry.1 ⟨after, middle, change entry.2⟩, ?_, ⟨sameAddrs ▸ nodup, last, ?_⟩, ?_⟩
  · rw [Cells.setItem, Cells.load, cell]
    rfl
  · refine seg_append.mpr
      ⟨middle, some entry.1, one.untouched (untouched_store inFirst), rfl, after, ?_, ?_⟩
    · exact Function.update_self _ _ _
    · exact other.untouched (untouched_store (List.nodup_cons.mp restNodup).1)
  · intro addr outside
    refine Function.update_of_ne (fun same => outside ?_) _ _
    rw [addrs_append, same]
    exact List.mem_append_right _ List.mem_cons_self

/-- The search of a chain stops at the first match of the list. -/
theorem Seg.search (seg : Seg mem before start list last none) (matched : α → Bool) {fuel : Nat}
    (enough : list.length ≤ fuel) :
    mem.search matched fuel start =
      .ok ((list.find? fun entry => matched entry.2).map Prod.fst) := by
  -- By induction on the list, one unit of fuel for each cell that is looked at.
  induction list generalizing before start fuel with
  | nil =>
    obtain ⟨_, rfl⟩ := seg
    cases fuel <;> rfl
  | cons entry rest ih =>
    obtain ⟨rfl, next, cell, goesOn⟩ := seg
    cases fuel with
    | zero => cases enough
    | succ fuel =>
      rw [Cells.search, Cells.load, cell]
      show (if matched entry.2 then _ else _) = _
      by_cases hit : matched entry.2 = true
      · rw [if_pos hit, List.find?_cons_of_pos (p := fun entry : Nat × α => matched entry.2) hit]
        rfl
      · rw [if_neg hit, List.find?_cons_of_neg (p := fun entry : Nat × α => matched entry.2) hit]
        exact ih goesOn (Nat.le_of_succ_le_succ enough)

/-- Something holds of the items of all cells in memory. -/
def Cells.Every (Holds : α → Prop) (mem : Cells α) : Prop :=
  ∀ addr, ∀ item ∈ (mem addr).map Cell.item, Holds item

/-- The same items are at the same addresses. -/
def SameItems (mem next : Cells α) : Prop :=
  ∀ addr, (next addr).map Cell.item = (mem addr).map Cell.item

section
variable {Holds : α → Prop} {next : Cells α} {addr : Nat} {item : α}

/-- A cell is loaded when it is in memory. -/
theorem Cells.load_eq_ok {cell : Cell α} : mem.load addr = .ok cell ↔ mem addr = some cell := by
  unfold Cells.load
  cases mem addr with
  | none => simp
  | some found => simp

/-- A change of the links of a cell leaves its item. -/
theorem sameItems_store {cell changed : Cell α} (there : mem.load addr = .ok cell)
    (keeps : changed.item = cell.item) : SameItems mem (mem.store addr changed) := by
  -- The address of the change is the only one to look at.
  intro other
  by_cases here : other = addr
  · rw [here, Cells.store, Function.update_self, Cells.load_eq_ok.mp there]
    exact congrArg some keeps
  · rw [Cells.store, Function.update_of_ne here]

/-- Another predecessor leaves the items. -/
theorem Cells.setPrev_items {after prev : Option Nat} (set : mem.setPrev after prev = .ok next) :
    SameItems mem next := by
  -- A store to a cell changes its links, and keeps the item in it.
  cases after with
  | none =>
    cases set
    exact fun _ => rfl
  | some addr =>
    obtain ⟨cell, there, stored⟩ := bind_eq_ok.mp set
    cases stored
    exact sameItems_store there rfl

/-- Another successor leaves the items. -/
theorem Cells.joinNext_items {head head' before after : Option Nat}
    (joined : mem.joinNext head before after = .ok (next, head')) : SameItems mem next := by
  -- Either the head is written, which is no cell, or the links of the cell before.
  cases before with
  | none =>
    cases joined
    exact fun _ => rfl
  | some prev =>
    obtain ⟨mid, set, done⟩ := bind_eq_ok.mp joined
    cases done
    obtain ⟨cell, there, stored⟩ := bind_eq_ok.mp set
    cases stored
    exact sameItems_store there rfl

/-- A new cell in front is in memory with its item. -/
theorem Cells.linkFront_item {head head' : Option Nat}
    (linked : mem.linkFront head addr item = .ok (next, head')) :
    (next addr).map Cell.item = some item := by
  obtain ⟨mid, set, done⟩ := bind_eq_ok.mp linked
  cases done
  rw [Cells.setPrev_items set addr, Cells.store, Function.update_self]
  rfl

/-- A changed item is that of the cell. -/
theorem Cells.setItem_item {change : α → α} (set : mem.setItem addr change = .ok next) :
    (next addr).map Cell.item = ((mem addr).map Cell.item).map change := by
  obtain ⟨cell, there, stored⟩ := bind_eq_ok.mp set
  cases stored
  rw [Cells.store, Function.update_self, Cells.load_eq_ok.mp there]
  rfl

/-- What holds of all items holds of them when they are linked in another way. -/
theorem Cells.Every.same (every : mem.Every Holds) (same : SameItems mem next) :
    next.Every Holds := by
  intro addr item is
  rw [same addr] at is
  exact every addr item is

/-- What holds of all items, and of a new one, holds of all items with that one. -/
theorem Cells.Every.store (every : mem.Every Holds) {cell : Cell α} (holds : Holds cell.item) :
    (mem.store addr cell).Every Holds := by
  -- The address is that of the cell that was stored, or one that the store left alone.
  intro other item is
  by_cases here : other = addr
  · rw [here, Cells.store, Function.update_self] at is
    cases is
    exact holds
  · rw [Cells.store, Function.update_of_ne here] at is
    exact every other item is

/-- A cell that is released takes an item away. -/
theorem Cells.Every.free (every : mem.Every Holds) : (mem.free addr).Every Holds := by
  -- The address is that of the freed cell, which holds nothing, or one that was left alone.
  intro other item is
  by_cases here : other = addr
  · rw [here, Cells.free, Function.update_self] at is
    cases is
  · rw [Cells.free, Function.update_of_ne here] at is
    exact every other item is

/-- What holds of every item and of a new one holds with the new one in front. -/
theorem Cells.Every.linkFront (every : mem.Every Holds) (holds : Holds item)
    {head head' : Option Nat}
    (linked : mem.linkFront head addr item = .ok (next, head')) : next.Every Holds := by
  obtain ⟨mid, set, done⟩ := bind_eq_ok.mp linked
  cases done
  exact (every.store holds).same (Cells.setPrev_items set)

/-- It holds with one taken out. -/
theorem Cells.Every.unlink (every : mem.Every Holds) {head head' : Option Nat}
    (unlinked : mem.unlink head addr = .ok (next, head')) : next.Every Holds := by
  -- Reading the cell, joining its neighbours and freeing it: each keeps or drops items.
  obtain ⟨cell, _, onward⟩ := bind_eq_ok.mp unlinked
  obtain ⟨⟨joinedMem, joinedHead⟩, joined, onward⟩ := bind_eq_ok.mp onward
  obtain ⟨last, set, done⟩ := bind_eq_ok.mp onward
  cases done
  exact ((every.same (Cells.joinNext_items joined)).same (Cells.setPrev_items set)).free

/-- A change that keeps what holds of an item. -/
theorem Cells.Every.setItem (every : mem.Every Holds) {change : α → α}
    (keeps : ∀ item, Holds item → Holds (change item)) (set : mem.setItem addr change = .ok next) :
    next.Every Holds := by
  obtain ⟨cell, there, stored⟩ := bind_eq_ok.mp set
  cases stored
  refine every.store (keeps _ (every addr _ ?_))
  rw [Cells.load_eq_ok.mp there]
  rfl

end

end

end Rmr

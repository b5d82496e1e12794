import Rmr.Symtab.Heap
import Rmr.Proofs.Symtab.Isolation

/-! The elements in memory do what the chains do that they are linked into. -/

namespace Rmr

variable {V : Type}

/-- The elements of a table in memory, with their addresses, and the table that they show. -/
structure SymHeap.Views (heap : SymHeap V) (chains : Nat → List (Nat × SymEle V))
    (table : Symtab V) :
    Prop where
  linked : ∀ hv, Linked heap.cells (heap.symlist hv) (chains hv)
  /-- No element is in two chains. -/
  apart : ∀ hv other addr, addr ∈ addrs (chains hv) → addr ∈ addrs (chains other) → hv = other
  old : ∀ hv addr, addr ∈ addrs (chains hv) → addr < heap.brk
  symlist : ∀ hv, table.symlist hv = (chains hv).map Prod.snd
  size : table.size = heap.size
  inhabitants : table.inhabitants = heap.inhabitants
  deaths : table.deaths = heap.deaths

namespace SymHeap
variable {heap : SymHeap V} {chains : Nat → List (Nat × SymEle V)} {table : Symtab V} {key : SymKey}

/-- A new table has empty chains. -/
theorem rmrSymAlloc_views (size : Int) (fits : size ≤ intMax) :
    (rmrSymAlloc V size fits).Views (fun _ => []) (Rmr.rmrSymAlloc V size fits) where
  -- No chain has an element yet, so that nothing in memory is referred to.
  linked := fun _ => ⟨List.nodup_nil, none, rfl, rfl⟩
  apart := fun _ _ _ among => absurd among List.not_mem_nil
  old := fun _ _ among => absurd among List.not_mem_nil
  symlist := fun _ => rfl
  size := rfl
  inhabitants := rfl
  deaths := rfl

/-- A chain is replaced, and the memory of the others left alone. -/
theorem Views.replace (views : heap.Views chains table) (hv : Nat) {heap' : SymHeap V}
    {table' : Symtab V}
    {list : List (Nat × SymEle V)} (linked : Linked heap'.cells (heap'.symlist hv) list)
    (heads : ∀ other, other ≠ hv → heap'.symlist other = heap.symlist other)
    (same : ∀ addr, addr ∉ addrs (chains hv) → addr < heap.brk → heap'.cells addr = heap.cells addr)
    (grows : heap.brk ≤ heap'.brk)
    (within : ∀ addr ∈ addrs list, addr ∈ addrs (chains hv) ∨ heap.brk ≤ addr ∧ addr < heap'.brk)
    (symlist : ∀ other, table'.symlist other =
      if other = hv then list.map Prod.snd else table.symlist other)
    (size : table'.size = heap'.size) (inhabitants : table'.inhabitants = heap'.inhabitants)
    (deaths : table'.deaths = heap'.deaths) :
    heap'.Views (Function.update chains hv list) table' := by
  have here : Function.update chains hv list hv = list := Function.update_self hv list chains
  have there : ∀ other, other ≠ hv → Function.update chains hv list other = chains other :=
    fun other differs => Function.update_of_ne differs list chains
  -- An address of the new list is in no other chain.
  have clear : ∀ other addr, other ≠ hv → addr ∈ addrs list → addr ∉ addrs (chains other) := by
    intro other addr differs among also
    rcases within addr among with mine | ⟨fresh, _⟩
    · exact differs (views.apart other hv addr also mine)
    · exact absurd (views.old other addr also) (Nat.not_lt.mpr fresh)
  exact {
    linked := by
      intro other
      by_cases equal : other = hv
      · rw [equal, here]
        exact linked
      · rw [there other equal, heads other equal]
        obtain ⟨nodup, last, seg⟩ := views.linked other
        refine ⟨nodup, last, seg.untouched fun addr among => same addr (fun mine => ?_) ?_⟩
        · exact equal (views.apart other hv addr among mine)
        · exact views.old other addr among
    apart := by
      intro one other addr among also
      by_cases oneHere : one = hv
      · rw [oneHere, here] at among
        by_cases otherHere : other = hv
        · rw [oneHere, otherHere]
        · rw [there other otherHere] at also
          exact absurd also (clear other addr otherHere among)
      · rw [there one oneHere] at among
        by_cases otherHere : other = hv
        · rw [otherHere, here] at also
          exact absurd among (clear one addr oneHere also)
        · rw [there other otherHere] at also
          exact views.apart one other addr among also
    old := by
      intro other addr among
      by_cases equal : other = hv
      · rw [equal, here] at among
        rcases within addr among with mine | ⟨_, low⟩
        · exact Nat.lt_of_lt_of_le (views.old hv addr mine) grows
        · exact low
      · rw [there other equal] at among
        exact Nat.lt_of_lt_of_le (views.old other addr among) grows
    symlist := by
      intro other
      rw [symlist]
      by_cases equal : other = hv
      · rw [if_pos equal, equal, here]
      · rw [if_neg equal, there other equal]
        exact views.symlist other
    size := size
    inhabitants := inhabitants
    deaths := deaths }

/-- There are no more elements in a chain than were ever allocated. -/
theorem Views.length_le (views : heap.Views chains table) (hv : Nat) :
    (chains hv).length ≤ heap.brk := by
  -- The addresses of a chain are different, and all of them were allocated.
  have inside : addrs (chains hv) ⊆ List.range heap.brk :=
    fun addr among => List.mem_range.mpr (views.old hv addr among)
  have shorter := (List.subperm_of_subset (views.linked hv).1 inside).length_le
  rwa [addrs, List.length_map, List.length_range] at shorter

/-- The chain of a key, with the addresses. -/
theorem Views.chain (views : heap.Views chains table) (key : SymKey) :
    table.chain key = (chains (key.hash heap.size)).map Prod.snd := by
  rw [Symtab.chain, views.size, views.symlist]

/-- The search stops at the first element that matches, in memory and in the list. -/
theorem Views.find_split (views : heap.Views chains table) {first rest : List (Nat × SymEle V)}
    {entry : Nat × SymEle V} (split : chains (key.hash heap.size) = first ++ entry :: rest)
    (passed : ∀ ele ∈ first.map Prod.snd, key.stops ele = false) (hit : key.stops entry.2 = true) :
    heap.find key = .ok (some entry.1) ∧ (table.chain key).find? key.stops = some entry.2 := by
  -- The walk in memory is the search in the list, by `Seg.search`.
  obtain ⟨_, _, seg⟩ := views.linked (key.hash heap.size)
  have searched : heap.find key = _ := seg.search key.stops (views.length_le (key.hash heap.size))
  have found : (chains (key.hash heap.size)).find? (fun entry => key.stops entry.2) =
      some entry := by
    refine List.find?_eq_some_iff_append.mpr ⟨hit, first, rest, split, fun other among => ?_⟩
    rw [passed other.2 (List.mem_map_of_mem among)]
    rfl
  refine ⟨by rw [searched, found]; rfl, ?_⟩
  rw [views.chain key, List.find?_map]
  exact congrArg (Option.map Prod.snd) found

/-- Whether there is an element that the search stops at: it stands behind others that the search
passes, or there is none. -/
theorem Views.find (views : heap.Views chains table) (key : SymKey) :
    (∃ first entry rest, chains (key.hash heap.size) = first ++ entry :: rest ∧
      (∀ ele ∈ first.map Prod.snd, key.stops ele = false) ∧ key.stops entry.2 = true) ∨
    heap.find key = .ok none ∧ (table.chain key).find? key.stops = none := by
  -- By what the search in the list says; the walk in memory says the same.
  cases found : (chains (key.hash heap.size)).find? fun entry => key.stops entry.2 with
  | none =>
    obtain ⟨_, _, seg⟩ := views.linked (key.hash heap.size)
    have searched : heap.find key = _ := seg.search key.stops (views.length_le (key.hash heap.size))
    refine .inr ⟨by rw [searched, found]; rfl, ?_⟩
    rw [views.chain key, List.find?_map]
    exact congrArg (Option.map Prod.snd) found
  | some entry =>
    obtain ⟨hit, first, rest, split, passed⟩ := List.find?_eq_some_iff_append.mp found
    refine .inl ⟨first, entry, rest, split, ?_, hit⟩
    intro ele among
    obtain ⟨other, inFirst, rfl⟩ := List.mem_map.mp among
    simpa using passed other inFirst

section
variable {first rest : List (Nat × SymEle V)} {entry : Nat × SymEle V}

/-- The chain of a key is one that has been split. -/
theorem Views.chain_split (views : heap.Views chains table)
    (split : chains (key.hash heap.size) = first ++ entry :: rest) :
    table.chain key = first.map Prod.snd ++ entry.2 :: rest.map Prod.snd := by
  rw [views.chain key, split, List.map_append, List.map_cons]

/-- `rmr_sym_del` unlinks the element that it finds. -/
theorem Views.delete (views : heap.Views chains table)
    (split : chains (key.hash heap.size) = first ++ entry :: rest)
    (passed : ∀ ele ∈ first.map Prod.snd, key.stops ele = false) (hit : key.stops entry.2 = true) :
    ∃ heap', heap.rmrSymDel key = .ok heap' ∧ heap'.brk = heap.brk ∧
      heap'.Views (Function.update chains (key.hash heap.size) (first ++ rest))
      (table.rmrSymDel key) := by
  obtain ⟨searched, found⟩ := views.find_split split passed hit
  have linked := views.linked (key.hash heap.size)
  rw [split] at linked
  obtain ⟨cells, head, unlinked, after, same⟩ := linked.unlink
  refine ⟨{ heap.setHead (key.hash heap.size) head with
    cells := cells
    deaths := heap.deaths + 1
    inhabitants := heap.inhabitants - 1 }, ?_, rfl, ?_⟩
  · show (heap.find key >>= heap.delEle (key.hash heap.size)) = _
    rw [searched]
    show (heap.cells.unlink _ entry.1 >>= _) = _
    rw [unlinked]
    rfl
  · -- The list loses the same element.
    have erased : table.rmrSymDel key = { table.setChain key ((first ++ rest).map Prod.snd) with
        inhabitants := table.inhabitants - 1
        deaths := table.deaths + 1 } := by
      rw [Symtab.rmrSymDel, found, views.chain_split split]
      dsimp only
      rw [eraseP_split passed hit, List.map_append]
    rw [erased]
    refine views.replace (key.hash heap.size) ?_ ?_ ?_ (Nat.le_refl _) ?_ ?_ views.size ?_ ?_
    · show Linked cells (Function.update heap.symlist _ head _) _
      rw [Function.update_self]
      exact after
    · exact fun other differs => Function.update_of_ne differs _ _
    · intro addr outside _
      rw [split] at outside
      exact same addr outside
    · intro addr among
      rw [split]
      refine .inl ?_
      rw [addrs_append] at among ⊢
      rcases List.mem_append.mp among with inFirst | inRest
      · exact List.mem_append_left _ inFirst
      · exact List.mem_append_right _ (List.mem_cons_of_mem _ inRest)
    · intro other
      rw [← views.size]
      exact Symtab.setChain_symlist table key _ other
    · show table.inhabitants - 1 = heap.inhabitants - 1
      rw [views.inhabitants]
    · show table.deaths + 1 = heap.deaths + 1
      rw [views.deaths]

/-- A change of the element that was found is one of the list. -/
theorem Views.change (views : heap.Views chains table)
    (split : chains (key.hash heap.size) = first ++ entry :: rest)
    (passed : ∀ ele ∈ first.map Prod.snd, key.stops ele = false) (hit : key.stops entry.2 = true)
    (change : SymEle V → SymEle V) :
    ∃ cells, heap.cells.setItem entry.1 change = .ok cells ∧
      (∃ next prev, cells entry.1 = some ⟨next, prev, change entry.2⟩) ∧
      SymHeap.Views { heap with cells := cells }
        (Function.update chains (key.hash heap.size) (first ++ (entry.1, change entry.2) :: rest))
        (table.setChain key (updateFirst key.stops change (table.chain key))) := by
  -- The links stay as they are, and so do the addresses; only the element is another one.
  have linked := views.linked (key.hash heap.size)
  rw [split] at linked
  obtain ⟨cells, set, after, same⟩ := linked.setItem change
  have sameAddrs : addrs (first ++ (entry.1, change entry.2) :: rest) =
      addrs (first ++ entry :: rest) := by
    rw [addrs_append, addrs_append]
    rfl
  refine ⟨cells, set, ?_, ?_⟩
  · obtain ⟨_, _, seg⟩ := after
    exact seg.found (List.mem_append_right _ List.mem_cons_self)
  · refine views.replace (key.hash heap.size) after (fun _ _ => rfl) ?_
      (Nat.le_refl _) ?_ ?_ views.size
      views.inhabitants views.deaths
    · intro addr outside _
      rw [split] at outside
      exact same addr outside
    · intro addr among
      rw [split, ← sameAddrs]
      exact .inl among
    · intro other
      rw [← views.size, Symtab.setChain_symlist, views.chain_split split,
        updateFirst_split passed hit,
        List.map_append, List.map_cons]

end

/-- A table in memory shows one of chains. -/
def Shows (heap : SymHeap V) (table : Symtab V) : Prop := ∃ chains, heap.Views chains table

/-- `rmr_sym_del` does to memory what it does to the chains. -/
theorem Shows.rmrSymDel (shows : heap.Shows table) (key : SymKey) :
    ∃ heap', heap.rmrSymDel key = .ok heap' ∧ heap'.Shows (table.rmrSymDel key) := by
  -- By whether the search finds an element; if it finds none, nothing is done.
  obtain ⟨chains, views⟩ := shows
  rcases views.find key with ⟨first, entry, rest, split, passed, hit⟩ | ⟨searched, nothing⟩
  · obtain ⟨heap', deleted, _, after⟩ := views.delete split passed hit
    exact ⟨heap', deleted, _, after⟩
  · refine ⟨heap, ?_, ?_⟩
    · show (heap.find key >>= heap.delEle (key.hash heap.size)) = _
      rw [searched]
      rfl
    · rw [Symtab.rmrSymDel, nothing]
      exact ⟨chains, views⟩

/-- `rmr_sym_get` does to memory what it does to the chains. -/
theorem Shows.rmrSymGet (shows : heap.Shows table) (key : SymKey) :
    ∃ heap', heap.rmrSymGet key = .ok (heap', (table.rmrSymGet key).2) ∧
      heap'.Shows (table.rmrSymGet key).1 := by
  -- An element that is found has its use counted before its value is read.
  obtain ⟨chains, views⟩ := shows
  rcases views.find key with ⟨first, entry, rest, split, passed, hit⟩ | ⟨searched, nothing⟩
  · obtain ⟨searched, found⟩ := views.find_split split passed hit
    obtain ⟨cells, set, ⟨next, prev, here⟩, after⟩ :=
      views.change split passed hit fun ele => { ele with rcount := ele.rcount + 1 }
    refine ⟨{ heap with cells := cells }, ?_, ?_⟩
    · rw [SymHeap.rmrSymGet, searched]
      show (heap.cells.setItem entry.1 _ >>= _) = _
      rw [set]
      show (cells.load entry.1 >>= _) = _
      rw [Cells.load, here, Symtab.rmrSymGet, found]
      rfl
    · rw [Symtab.rmrSymGet, found]
      exact ⟨_, after⟩
  · refine ⟨heap, ?_, ?_⟩
    · rw [SymHeap.rmrSymGet, searched, Symtab.rmrSymGet, nothing]
      rfl
    · rw [Symtab.rmrSymGet, nothing]
      exact ⟨chains, views⟩

/-- A new element is added where the search found none. -/
theorem Views.add (views : heap.Views chains table) (key : SymKey) :
    ∃ heap', heap.add key = .ok heap' ∧ heap'.size = heap.size ∧
      heap'.Views (Function.update chains (key.hash heap.size)
          ((heap.brk, key.blank) :: chains (key.hash heap.size)))
        { table.setChain key (key.blank :: table.chain key) with
          inhabitants := table.inhabitants + 1 } := by
  -- The new element stands in front of its chain, at an address no chain has used.
  have fresh : heap.brk ∉ addrs (chains (key.hash heap.size)) :=
    fun among => absurd (views.old _ _ among) (Nat.lt_irrefl _)
  obtain ⟨cells, put, after, same⟩ := (views.linked (key.hash heap.size)).linkFront fresh key.blank
  refine ⟨{ heap.setHead (key.hash heap.size) (some heap.brk) with
    cells := cells
    brk := heap.brk + 1
    inhabitants := heap.inhabitants + 1 }, ?_, rfl, ?_⟩
  · show (heap.cells.linkFront _ heap.brk key.blank >>= _) = _
    rw [put]
    rfl
  · refine views.replace (key.hash heap.size) ?_ ?_ ?_ (Nat.le_succ _) ?_ ?_ views.size ?_
      views.deaths
    · show Linked cells (Function.update heap.symlist _ (some heap.brk) _) _
      rw [Function.update_self]
      exact after
    · exact fun other differs => Function.update_of_ne differs _ _
    · intro addr outside low
      refine same addr fun among => ?_
      rcases List.mem_cons.mp among with here | there
      · rw [show addr = heap.brk from here] at low
        exact Nat.lt_irrefl _ low
      · exact outside there
    · intro addr among
      rcases List.mem_cons.mp among with here | there
      · rw [show addr = heap.brk from here]
        exact .inr ⟨Nat.le_refl _, Nat.lt_succ_self _⟩
      · exact .inl there
    · intro other
      rw [← views.size, views.chain key, views.size]
      refine (Symtab.setChain_symlist table key _ other).trans ?_
      rw [views.size]
      rfl
    · show table.inhabitants + 1 = heap.inhabitants + 1
      rw [views.inhabitants]

/-- A blank element that is given a value is the element for its key. -/
theorem blank_element (key : SymKey) (val : Option V) :
    ({ (key.blank : SymEle V) with mcount := (key.blank : SymEle V).mcount + 1, val := val } :
      SymEle V) =
      key.element val := by
  cases key with
  | numeric nkey => rfl
  | string cls named name => rfl

/-- A blank element stops the search for its key. -/
theorem blank_stops (key : SymKey) : key.stops (key.blank : SymEle V) = true := by
  cases key with
  | numeric nkey => exact decide_eq_true rfl
  | string cls named name => exact Bool.and_eq_true_iff.mpr ⟨decide_eq_true rfl, decide_eq_true rfl⟩

/-- `putin` does to memory what it does to the chains. -/
theorem Shows.putin (shows : heap.Shows table) (key : SymKey) (val : Option V) :
    ∃ heap', heap.putin key val = .ok (heap', (table.putin key val).2) ∧
      heap'.Shows (table.putin key val).1 := by
  obtain ⟨chains, views⟩ := shows
  rcases views.find key with ⟨first, entry, rest, split, passed, hit⟩ | ⟨searched, nothing⟩
  · obtain ⟨searched, found⟩ := views.find_split split passed hit
    obtain ⟨cells, set, _, after⟩ :=
      views.change split passed hit fun ele => { ele with mcount := ele.mcount + 1, val := val }
    refine ⟨{ heap with cells := cells }, ?_, ?_⟩
    · rw [SymHeap.putin, searched, Symtab.putin, found]
      show (heap.modify entry.1 val >>= _) = _
      rw [SymHeap.modify, set]
      rfl
    · rw [Symtab.putin, found]
      exact ⟨_, after⟩
  · -- The new element is the first one that the search stops at, and is given the value.
    obtain ⟨heap₁, added, size, views₁⟩ := views.add key
    have split : Function.update chains (key.hash heap.size)
        ((heap.brk, key.blank) :: chains (key.hash heap.size)) (key.hash heap₁.size) =
          [] ++ (heap.brk, key.blank) :: chains (key.hash heap.size) := by
      rw [size, Function.update_self]
      rfl
    obtain ⟨cells, set, _, after⟩ :=
      views₁.change split (fun _ among => absurd among List.not_mem_nil)
      (blank_stops key) fun ele => { ele with mcount := ele.mcount + 1, val := val }
    refine ⟨{ heap₁ with cells := cells }, ?_, ?_⟩
    · rw [SymHeap.putin, searched, Symtab.putin, nothing]
      show (heap.add key >>= fun heap => heap.modify _ val >>= _) = _
      rw [added]
      show (heap₁.modify heap.brk val >>= _) = _
      rw [SymHeap.modify, set]
      rfl
    · have chain : Symtab.chain { table.setChain key (key.blank :: table.chain key) with
          inhabitants := table.inhabitants + 1 } key = key.blank :: table.chain key :=
        (Symtab.setChain_symlist table key _ _).trans (if_pos rfl)
      rw [chain, updateFirst, if_pos (blank_stops key), blank_element] at after
      unfold Symtab.setChain at after
      rw [Function.update_idem] at after
      rw [Symtab.putin, nothing]
      exact ⟨_, after⟩

end SymHeap

end Rmr

import Rmr.Lib.Growing
import Rmr.Text.Scan

/-! The functions that split a string, as they do so in the memory that it is in. -/

namespace Rmr

/-- What ends a string. -/
def nul : Char := '\x00'

/-- A piece of memory. -/
abbrev Chars := List Char

namespace Chars

/-- The string is in the memory from some place on, with what ends it. -/
def Holds (mem : Chars) (pos : Nat) (str : CStr) : Prop :=
  nul ∉ str ∧ (str ++ [nul]) <+: mem.drop pos

/-- A character is read. -/
def load (mem : Chars) (pos : Nat) : Except Fault Char :=
  match mem[pos]? with
  | some c => .ok c
  | none => .error .range

/-- A character is written. -/
def store (mem : Chars) (pos : Nat) (c : Char) : Except Fault Chars :=
  if pos < mem.length then .ok (mem.set pos c) else .error .range

/-- A string is read up to what ends it. -/
def strOf : Chars → Except Fault CStr
  | [] => .error .range
  | c :: rest => if c = nul then .ok [] else do return c :: (← strOf rest)

/-- The string that is at some place. -/
def strAt (mem : Chars) (pos : Nat) : Except Fault CStr := strOf (mem.drop pos)

/-- The place of a character in a string that starts at `pos`. -/
def indexIn (c : Char) : Chars → Nat → Except Fault (Option Nat)
  | [], _ => .error .range
  | first :: rest, pos =>
    if first = c then .ok (some pos)
    else if first = nul then .ok none
    else indexIn c rest (pos + 1)

/-- `strchr`: the first place where a string has a character. -/
def strchr (mem : Chars) (pos : Nat) (c : Char) : Except Fault (Option Nat) :=
  indexIn c (mem.drop pos) pos

/-- `strdup`, which gets the memory that it asks for. -/
def strdup (str : CStr) : Chars := str ++ [nul]

end Chars

open Chars

/-- The loop of `uta_tokenise`, with `n` tokens recorded and room for `more`. -/
def tokeniseLoop (sep : Char) : Nat → Chars → Slots Nat → Nat → Nat →
    Except Fault (Chars × Slots Nat × Nat)
  | 0, mem, tokens, n, _ => .ok (mem, tokens, n)
  | more + 1, mem, tokens, n, stop => do
    if (← mem.load stop) = nul then return (mem, tokens, n)
    match ← mem.strchr stop sep with
    | none => return (mem, tokens, n)
    | some found =>
      let mem ← mem.store found nul
      let tokens ← tokens.put n (found + 1)
      tokeniseLoop sep more mem tokens (n + 1) (found + 1)

/-- `uta_tokenise` of a string that is at `buf` in memory, where neither pointer is nil. -/
def utaTokeniseAt (mem : Chars) (buf : Nat) (tokens : Slots Nat) (max : Nat) (sep : Char) :
    Except Fault (Chars × Slots Nat × Nat) := do
  if (← mem.load buf) = nul then return (mem, tokens, 0)
  let tokens ← tokens.put 0 buf
  tokeniseLoop sep (max - 1) mem tokens 1 buf

/-- `is_this_myip`, of a list of `naddrs` pointers that need not be there. -/
def isThisMyipIn (l : Option (List (Option CStr))) (addr : CStr) : Bool :=
  match l with
  | none => false
  | some addrs => addrs.any fun own =>
    match own with
    | none => false
    | some own => addr = own

/-- One turn of the loop of `uta_rmip_tokenise`, with `j` tokens kept. -/
def pruneToken (mem : Chars) (iplist : Option (List (Option CStr))) (state : Slots Nat × Nat × Nat)
    (tok : Nat) : Except Fault (Slots Nat × Nat × Nat) := do
  let (toks, j, pcount) := state
  -- Ours are pruned.
  if isThisMyipIn iplist (← mem.strAt tok) then return (toks, j, pcount - 1)
  else return (← toks.put j tok, j + 1, pcount)

/-- `uta_rmip_tokenise`, which gets the memory that it asks for. -/
def utaRmipTokeniseAt (mem : Chars) (buf : Nat) (iplist : Option (List (Option CStr)))
    (toks : Slots Nat) (max : Nat) (sep : Char) : Except Fault (Chars × Slots Nat × Nat) := do
  let (mem, allToks, ntoks) ← utaTokeniseAt mem buf (Slots.alloc Nat max) max sep
  let (toks, _, pcount) ← (List.range ntoks).foldlM
    (fun state i => do pruneToken mem iplist state (← allToks.read i)) (toks, 0, ntoks)
  return (mem, toks, pcount)

/-- The loops of `uta_has_str` and `has_myip`: the index of the first token that passes a test, with
`left` tokens to look at. -/
def searchTokens (test : CStr → Bool) (mem : Chars) (tokens : Slots Nat) :
    Nat → Nat → Except Fault (Option Nat)
  | 0, _ => .ok none
  | left + 1, i => do
    if test (← mem.strAt (← tokens.read i)) then return some i
    searchTokens test mem tokens left (i + 1)

/-- `uta_has_str`, which gets the memory that it asks for. -/
def utaHasStrAt (buf str : CStr) (sep : Char) (max : Nat) : Except Fault Int := do
  if max < 2 then return -1
  let (mem, tokens, ntokens) ← utaTokeniseAt (strdup buf) 0 (Slots.alloc Nat max) max sep
  match ← searchTokens (· = str) mem tokens ntokens 0 with
  | some i => return i
  | none => return -1

/-- `has_myip`, which gets the memory that it asks for. -/
def hasMyipAt (buf : Option CStr) (list : Option (List (Option CStr))) (sep : Char) (max : Nat) :
    Except Fault Bool := do
  if max < 2 then return false
  match buf, list with
  | none, _ => return false
  | _, none => return false
  | some buf, some addrs =>
    let (mem, tokens, ntokens) ← utaTokeniseAt (strdup buf) 0 (Slots.alloc Nat max) max sep
    return (← searchTokens (isThisMyipIn (some addrs)) mem tokens ntokens 0).isSome

/-- A number of tokens is recorded, which are the strings. -/
def Recorded (out : Chars × Slots Nat × Nat) (strs : List CStr) : Prop :=
  ∃ places, out.2.2 = places.length ∧ out.2.1.Filled places ∧
    List.Forall₂ (fun pos str => out.1.Holds pos str) places strs

end Rmr

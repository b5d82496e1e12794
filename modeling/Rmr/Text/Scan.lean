import Mathlib.Data.List.DropRight
import Rmr.Lib.CInt

/-! Strings, and the functions that split and trim the records of a route table. -/

namespace Rmr

/-- A string, without the character that ends it. -/
abbrev CStr := List Char

instance : LawfulBEq CStr := inferInstance

/-- `isspace`. -/
def isspace (c : Char) : Bool :=
  c = ' ' || c = '\t' || c = '\n' || c = '\x0b' || c = '\x0c' || c = '\r'

/-- White space at the end is trimmed, but never the first character. -/
def trimEnd : CStr → CStr
  | [] => []
  | first :: rest => first :: rest.rdropWhile isspace

/-- `clip`: without white space around it and without a trailing comment, which must stand at the
start of a word. -/
def clip (buf : CStr) : CStr :=
  let buf := buf.dropWhile isspace
  let before := buf.takeWhile (· ≠ '#')
  if before.length = buf.length then trimEnd buf
  -- A leading comment is handled by the caller.
  else if before = [] then buf
  else if (before.getLast?.map isspace).getD false then trimEnd before
  else trimEnd buf

/-- The rest of the loop of `uta_tokenise`, which may still split some times. -/
def splitRest (sep : Char) : Nat → CStr → List CStr
  | 0, buf => [buf]
  | more + 1, buf =>
    match buf.dropWhile (· ≠ sep) with
    | [] => [buf]
    | _ :: rest => buf.takeWhile (· ≠ sep) :: splitRest sep more rest

/-- `uta_tokenise`: at most `max` tokens, the last of which is all that is left. -/
def utaTokenise (buf : CStr) (max : Nat) (sep : Char) : List CStr :=
  if buf = [] then [] else splitRest sep (max - 1) buf

/-- The pieces of a string between separators; there are none in an empty string. -/
def pieces (sep : Char) (buf : CStr) : List CStr := if buf = [] then [] else buf.splitOn sep

/-- `is_this_myip`. -/
def isThisMyip (list : List CStr) (addr : CStr) : Bool := addr ∈ list

/-- `uta_rmip_tokenise`: tokens that are not an address of this process. -/
def utaRmipTokenise (buf : CStr) (iplist : List CStr) (max : Nat) (sep : Char) : List CStr :=
  (utaTokenise buf max sep).filter fun tok => !isThisMyip iplist tok

/-- `uta_has_str`: the index of the token that is the string, if there is one. -/
def utaHasStr (buf str : CStr) (sep : Char) (max : Nat) : Option Nat :=
  if max < 2 then none else (utaTokenise buf max sep).findIdx? (· = str)

/-- `has_myip`: whether a token is an address of this process. -/
def hasMyip (buf : CStr) (list : List CStr) (sep : Char) (max : Nat) : Bool :=
  if max < 2 then false else (utaTokenise buf max sep).any (isThisMyip list)

/-- The value of leading decimal digits. -/
def digitsVal (buf : CStr) : Nat :=
  (buf.takeWhile Char.isDigit).foldl (fun n c => n * 10 + (c.toNat - '0'.toNat)) 0

/-- `atoi`: as `strtol`, whose value stays within a `long` and is cut to an `int`. -/
def atoi (buf : CStr) : Int :=
  match buf.dropWhile isspace with
  | '-' :: digits => toInt (max (-(digitsVal digits : Int)) (-9223372036854775808))
  | '+' :: digits => toInt (min (digitsVal digits : Int) 9223372036854775807)
  | digits => toInt (min (digitsVal digits : Int) 9223372036854775807)

end Rmr

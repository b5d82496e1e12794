import Rmr.Route.Session

/-! What a record lists for a table, whatever room there is for it, and what of it a table has. -/

namespace Rmr

/-- What is taken for the name in a text that stands between two separators. -/
structure Naming where
  name : CStr → CStr
  /-- A name is taken for itself. -/
  settled : ∀ text, name (name text) = name text
  /-- It has the characters of the text only. -/
  within : ∀ text, ∀ c ∈ name text, c ∈ text

/-- A text without the white space around it. -/
def strip (text : CStr) : CStr := (text.dropWhile isspace).rdropWhile isspace

/-- There is no white space left to take away. -/
theorem strip_strip (text : CStr) : strip (strip text) = strip text := by
  have front : (strip text).dropWhile isspace = strip text := by
    rw [List.dropWhile_eq_self_iff]
    intro some_
    -- The first character is the one that the text begins with when the white space is taken away.
    have start := List.rdropWhile_prefix isspace (l := text.dropWhile isspace)
    have same := start.getElem some_
    rw [show (strip text)[0] = _ from same]
    exact List.dropWhile_get_zero_not isspace text (Nat.lt_of_lt_of_le some_ start.length_le)
  unfold strip at front ⊢
  rw [front, List.rdropWhile_idempotent]

namespace Naming

/-- A name is what is written between the separators. -/
def written : Naming where
  name := id
  settled _ := rfl
  within _ _ among := among

/-- White space around a name does not belong to it. -/
def stripped : Naming where
  name := strip
  settled := strip_strip
  within text c among := by
    have back := (List.rdropWhile_prefix isspace (l := text.dropWhile isspace)).subset among
    exact (List.dropWhile_suffix isspace).subset back

end Naming

/-- Whether a name is one of this process. -/
def isOwn (conf : RtConf) (name : CStr) : Bool := name ∈ conf.ipList || name = conf.myName

/-- The endpoints other than this process that the text of a group lists. -/
def listedIn (naming : Naming) (conf : RtConf) (group : CStr) : List CStr :=
  ((group.splitOn ',').map naming.name).filter fun name => name ≠ [] && !isOwn conf name

/-- The texts of the groups that a field lists; the special indicator is none of them. -/
def listedGroups (field : CStr) : List CStr :=
  if (field.splitOn ';').head? = some ['%', 'm', 'e', 'i', 'd'] then (field.splitOn ';').tail
  else field.splitOn ';'

/-- The endpoints that a table should have for a field, group by group. -/
def wanted (naming : Naming) (conf : RtConf) (field : CStr) : List (List CStr) :=
  ((listedGroups field).map (listedIn naming conf)).filter (· ≠ [])

/-- The endpoints that an entry has, group by group. -/
def storedNames (rrgroups : List (Option RrGroup)) : List (List CStr) :=
  (rrgroups.map fun slot => (slot.getD ⟨[]⟩).epts.reduceOption).filter (· ≠ [])

/-- An entry has the endpoints that a field lists, in the order in which they are listed, and this
process is not among them. -/
structure OthersOnly (naming : Naming) (conf : RtConf) (field : CStr)
    (rrgroups : List (Option RrGroup)) : Prop where
  others : ∀ names ∈ storedNames rrgroups, ∀ name ∈ names, isOwn conf (naming.name name) = false
  all : storedNames rrgroups = wanted naming conf field

/-- A text that is one name, and nothing else. -/
def Clean (naming : Naming) (text : CStr) : Prop :=
  naming.name text = text ∧ ',' ∉ text ∧ ';' ∉ text

/-- A text that lists no endpoint other than this process. -/
def Idle (naming : Naming) (conf : RtConf) (text : CStr) : Prop :=
  ∀ group ∈ text.splitOn ';', listedIn naming conf group = []

/-- The tokens of a group, when there is room for so many endpoints: those that there is room for
are names, and those that there is none for list nothing. -/
def TidyTokens (naming : Naming) (conf : RtConf) : Nat → List CStr → Prop
  | _, [] => True
  | 0, tok :: toks => Idle naming conf tok ∧ TidyTokens naming conf 0 toks
  | room + 1, tok :: toks =>
    if isOwn conf tok then Idle naming conf tok ∧ TidyTokens naming conf (room + 1) toks
    else Clean naming tok ∧ TidyTokens naming conf room toks

/-- The tokens of a group are tidy, and there is one group among them at most that lists something.
-/
def TidyGroup (naming : Naming) (conf : RtConf) (gtok : CStr) : Prop :=
  TidyTokens naming conf maxEpGroup (utaTokenise gtok 64 ',') ∧
    (((gtok.splitOn ';').map (listedIn naming conf)).filter (· ≠ [])).length ≤ 1

/-- A field within what `build_entry` handles: nothing is listed with the special indicator, or all
groups are tidy. -/
def Tidy (naming : Naming) (conf : RtConf) (field : CStr) : Prop :=
  if (field.splitOn ';').head? = some ['%', 'm', 'e', 'i', 'd'] then
    ∀ group ∈ (field.splitOn ';').tail, listedIn naming conf group = []
  else ∀ gtok ∈ utaTokenise field 64 ';', TidyGroup naming conf gtok

instance (naming : Naming) (text : CStr) : Decidable (Clean naming text) :=
  inferInstanceAs (Decidable (_ ∧ _))

instance (naming : Naming) (conf : RtConf) (text : CStr) : Decidable (Idle naming conf text) :=
  inferInstanceAs (Decidable (∀ _ ∈ _, _))

instance decidableTidyTokens (naming : Naming) (conf : RtConf) : (room : Nat) → (toks : List CStr) →
    Decidable (TidyTokens naming conf room toks)
  | _, [] => isTrue trivial
  | 0, _ :: toks =>
    have := decidableTidyTokens naming conf 0 toks
    inferInstanceAs (Decidable (_ ∧ _))
  | room + 1, tok :: toks =>
    have := decidableTidyTokens naming conf (room + 1) toks
    have := decidableTidyTokens naming conf room toks
    inferInstanceAs (Decidable (if isOwn conf tok then
      Idle naming conf tok ∧ TidyTokens naming conf (room + 1) toks
      else Clean naming tok ∧ TidyTokens naming conf room toks))

instance (naming : Naming) (conf : RtConf) (gtok : CStr) : Decidable (TidyGroup naming conf gtok) :=
  inferInstanceAs (Decidable (_ ∧ _))

instance (naming : Naming) (conf : RtConf) (field : CStr) : Decidable (Tidy naming conf field) :=
  inferInstanceAs (Decidable (if (field.splitOn ';').head? = some ['%', 'm', 'e', 'i', 'd'] then
    ∀ group ∈ (field.splitOn ';').tail, listedIn naming conf group = []
    else ∀ gtok ∈ utaTokenise field 64 ';', TidyGroup naming conf gtok))

end Rmr

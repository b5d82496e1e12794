import Rmr.Lib.Run
import Rmr.Route.Texts

/-! Laws of table texts: when a file and messages give the parser the same records. -/

namespace Rmr

/-- A record without the white space around it. -/
def trimmed (rec : CStr) : CStr := trimEnd (rec.dropWhile isspace)

/-- The records that tell something, without the white space around them. -/
def told (recs : List CStr) : List CStr := (recs.map trimmed).filter (· ≠ [])

/-- White space is all that is in a record. -/
def blank (rec : CStr) : Bool := rec.all isspace

/-- The first character is never trimmed, so that nothing is left of nothing only. -/
theorem trimEnd_eq_nil {buf : CStr} : trimEnd buf = [] ↔ buf = [] := by
  -- A text with a first character keeps it.
  cases buf with
  | nil => exact ⟨fun _ => rfl, fun _ => rfl⟩
  | cons first rest => exact iff_of_false (List.cons_ne_nil _ _) (List.cons_ne_nil _ _)

/-- Nothing is left of a blank record only. -/
theorem trimmed_eq_nil {rec : CStr} : trimmed rec = [] ↔ blank rec = true := by
  rw [trimmed, trimEnd_eq_nil, List.dropWhile_eq_nil_iff, blank, List.all_eq_true]

/-- White space at the end of what starts with something else is trimmed. -/
theorem trimEnd_append {buf space : CStr} (some_ : buf ≠ []) (blank : blank space = true) :
    trimEnd (buf ++ space) = trimEnd buf := by
  -- The first character is not trimmed, so that only the rest of the string matters.
  cases buf with
  | nil => exact absurd rfl some_
  | cons first rest =>
    change first :: (rest ++ space).rdropWhile isspace = first :: rest.rdropWhile isspace
    have dropped : (rest ++ space).rdropWhile isspace = rest.rdropWhile isspace := by
      rw [List.rdropWhile, List.reverse_append, List.dropWhile_append_of_pos, List.rdropWhile]
      intro c among
      exact List.all_eq_true.mp blank c (List.mem_reverse.mp among)
    rw [dropped]

/-- White space in front of a record does not matter. -/
theorem trimmed_blank_append {space rec : CStr} (blank : blank space = true) :
    trimmed (space ++ rec) = trimmed rec := by
  rw [trimmed, List.dropWhile_append_of_pos (List.all_eq_true.mp blank), trimmed]

/-- White space after a record does not matter. -/
theorem trimmed_append_blank {rec space : CStr} (blank_ : blank space = true) :
    trimmed (rec ++ space) = trimmed rec := by
  -- A blank record is trimmed to nothing; any other one ends in front of the white space.
  by_cases none_ : blank rec = true
  · rw [trimmed_blank_append none_, trimmed_eq_nil.mpr none_, trimmed_eq_nil.mpr blank_]
  · have starts : rec.dropWhile isspace ≠ [] := by
      intro is
      exact none_ (List.all_eq_true.mpr (List.dropWhile_eq_nil_iff.mp is))
    rw [trimmed, List.dropWhile_append, if_neg (by simpa using starts),
      trimEnd_append starts blank_,
      trimmed]

/-- There is nothing more to trim in a trimmed record. -/
theorem trimmed_trimmed (rec : CStr) : trimmed (trimmed rec) = trimmed rec := by
  -- What is left starts with no white space, and ends with none behind the first character.
  unfold trimmed
  cases start : rec.dropWhile isspace with
  | nil => rfl
  | cons first rest =>
    have head : isspace first = false := by
      have head := List.head?_dropWhile_not isspace rec
      rw [start] at head
      simpa using head
    change trimEnd ((first :: rest.rdropWhile isspace).dropWhile isspace) = _
    rw [List.dropWhile_cons_of_neg (by rw [head]; exact Bool.false_ne_true)]
    change first :: (rest.rdropWhile isspace).rdropWhile isspace = first :: rest.rdropWhile isspace
    rw [List.rdropWhile_idempotent]

/-- Records tell one after the other. -/
theorem told_append (recs recs' : List CStr) : told (recs ++ recs') = told recs ++ told recs' := by
  rw [told, List.map_append, List.filter_append]
  rfl

/-- A blank record tells nothing. -/
theorem told_cons_blank {rec : CStr} (is : blank rec = true) (recs : List CStr) :
    told (rec :: recs) = told recs := by
  rw [told, List.map_cons, List.filter_cons_of_neg, told]
  simpa using trimmed_eq_nil.mpr is

/-- Another one tells what is left of it. -/
theorem told_cons_some {rec : CStr} (is : blank rec = false) (recs : List CStr) :
    told (rec :: recs) = trimmed rec :: told recs := by
  -- A record that is not blank is not empty after it was trimmed, and so is not left out.
  rw [told, List.map_cons, List.filter_cons_of_pos, told]
  have some_ : trimmed rec ≠ [] := by
    intro none_
    rw [trimmed_eq_nil.mp none_] at is
    cases is
  simpa using some_

/-- As many records tell something as are not blank. -/
theorem length_told (recs : List CStr) :
    (told recs).length = recs.countP fun rec => !blank rec := by
  -- By induction on the records, the blank ones of which are left out.
  induction recs with
  | nil => rfl
  | cons rec recs ih =>
    cases is : blank rec with
    | true => rw [told_cons_blank is, ih,
      List.countP_cons_of_neg (by rw [is]; exact Bool.false_ne_true)]
    | false => rw [told_cons_some is, List.length_cons, ih,
      List.countP_cons_of_pos (by rw [is]; rfl)]

namespace RtCtx

variable {ctx : RtCtx} {conf : RtConf} {mem : Mem}

/-- The parser trims a record. -/
theorem parseRtRec_trimmed (rec : CStr) :
    ctx.parseRtRec conf mem (trimmed rec) = ctx.parseRtRec conf mem rec := by
  -- The parser trims what it is given, and there is nothing more to trim.
  have again : trimEnd ((trimmed rec).dropWhile isspace) = trimEnd (rec.dropWhile isspace) :=
    trimmed_trimmed rec
  have begins : ctx.beginRec conf mem (trimmed rec) = ctx.beginRec conf mem rec := by
    unfold beginRec
    rw [again]
  rw [parseRtRec, begins, parseRtRec]

/-- A blank record changes nothing. -/
theorem parseRtRec_blank {rec : CStr} (is : blank rec = true) :
    ctx.parseRtRec conf mem rec = .ok ctx := by
  -- Nothing is left of the record, so that it has no name and no kind.
  have nothing : trimEnd (rec.dropWhile isspace) = [] := trimmed_eq_nil.mpr is
  have begins : ctx.beginRec conf mem rec = .ok (ctx, none) := by
    unfold beginRec
    rw [nothing]
    rfl
  rw [parseRtRec, begins]
  rfl

end RtCtx

namespace TableRead

variable {conf : RtConf} {mems : Nat → Mem} {read : TableRead}

/-- What is read depends on the records that tell something only. -/
theorem readRecs_told (recs : List CStr) :
    read.readRecs conf mems (told recs) = read.readRecs conf mems recs := by
  -- By induction on the records: a blank one changes neither the context nor the count.
  induction recs generalizing read with
  | nil => rfl
  | cons rec recs ih =>
    cases is : blank rec with
    | true =>
      have same : read.readRec conf mems rec = .ok read := by
        rw [readRec, RtCtx.parseRtRec_blank is]
        change Except.ok (TableRead.mk read.ctx (if blank rec = true then _ else _)) = _
        rw [if_pos is]
      rw [told_cons_blank is, ih, readRecs, readRecs, List.foldlM_cons, same]
      rfl
    | false =>
      have same : read.readRec conf mems (trimmed rec) = read.readRec conf mems rec := by
        have both : blank (trimmed rec) = blank rec := by
          rw [Bool.eq_iff_iff, ← trimmed_eq_nil, trimmed_trimmed, trimmed_eq_nil]
        rw [readRec, RtCtx.parseRtRec_trimmed, readRec]
        change (_ >>= fun ctx =>
          Except.ok (TableRead.mk ctx (if blank (trimmed rec) = true then _ else _))) = _
        rw [both]
        rfl
      rw [told_cons_some is, readRecs, readRecs, List.foldlM_cons, List.foldlM_cons, same]
      congr 1
      funext next
      exact ih

end TableRead

/-- What a text tells when it is split at newlines. -/
def toldBy (text : CStr) : List CStr := told (text.splitOn '\n')

/-- A text tells what its lines do. -/
theorem toldBy_append (first second : CStr) :
    toldBy (first ++ '\n' :: second) = toldBy first ++ toldBy second := by
  rw [toldBy, List.splitOn_append_cons_self, told_append]
  rfl

/-- An empty text tells nothing. -/
theorem toldBy_nil : toldBy [] = [] := rfl

/-- Carriage returns are replaced wherever they are. -/
theorem fixBroken_append (first second : CStr) :
    fixBroken (first ++ second) = fixBroken first ++ fixBroken second := List.map_append

/-- A text that ends with a newline, or a carriage return, or is empty. -/
def Terminated (text : CStr) : Prop := ∀ last ∈ text.getLast?, last = '\n' ∨ last = '\r'

/-- Texts that end with a terminator can be told one after the other. -/
theorem toldBy_fixBroken_append {first : CStr} (terminated : Terminated first) (second : CStr) :
    toldBy (fixBroken (first ++ second)) =
      toldBy (fixBroken first) ++ toldBy (fixBroken second) := by
  -- The last character becomes a newline, behind which a record of its own starts.
  rcases List.eq_nil_or_concat first with rfl | ⟨before, last, rfl⟩
  · rfl
  · rw [List.concat_eq_append] at terminated ⊢
    have newline : fixBroken [last] = ['\n'] := by
      rcases terminated last (by rw [List.getLast?_concat]; rfl) with rfl | rfl
      · rfl
      · rfl
    rw [List.append_assoc, fixBroken_append, fixBroken_append, fixBroken_append, newline]
    change toldBy (_ ++ '\n' :: fixBroken second) = toldBy (_ ++ '\n' :: []) ++ _
    rw [toldBy_append, toldBy_append, toldBy_nil, List.append_nil]

/-- What a file tells does not depend on a missing newline at the end. -/
theorem told_fileRecs {text : CStr} (clean : '\x00' ∉ text) :
    told (fileRecs text) = toldBy (fixBroken text) := by
  have whole : cString text = text := by
    refine List.takeWhile_eq_self_iff.mpr fun c among => ?_
    simpa using fun (is : c = '\x00') => clean (is ▸ among)
  -- Whatever the text ends with, a newline is last once it was looked after.
  have ends : ∀ before, told ((fixBroken (before ++ ['\n'])).splitOn '\n').dropLast =
      toldBy (fixBroken before) := by
    intro before
    rw [fixBroken_append]
    change told ((fixBroken before ++ '\n' :: []).splitOn '\n').dropLast = _
    rw [List.splitOn_append_cons_self]
    change told ((fixBroken before).splitOn '\n' ++ [[]]).dropLast = _
    rw [List.dropLast_concat]
    rfl
  rw [fileRecs, whole, ensureNlterm]
  split
  · rename_i last
    rcases List.eq_nil_or_concat text with rfl | ⟨before, c, rfl⟩
    · cases last
    · rw [List.concat_eq_append] at last ⊢
      rw [List.getLast?_concat, Option.some_inj] at last
      rw [last, ends, fixBroken_append]
      change _ = toldBy (_ ++ '\n' :: [])
      rw [toldBy_append, toldBy_nil, List.append_nil]
  · exact ends text

/-- A file is split at carriage returns in the lines that newlines make. -/
theorem splitOn_fixBroken (text : CStr) :
    (fixBroken text).splitOn '\n' = (text.splitOn '\n').flatMap fun line => line.splitOn '\r' := by
  induction text with
  | nil => rfl
  | cons c text ih =>
    obtain ⟨line, lines, split⟩ := List.exists_cons_of_ne_nil (List.splitOn_ne_nil '\n' text)
    obtain ⟨rec, recs, cut⟩ := List.exists_cons_of_ne_nil (List.splitOn_ne_nil '\r' line)
    rw [split] at ih
    change ((if c = '\r' then '\n' else c) :: fixBroken text).splitOn '\n' = _
    rw [List.splitOn_cons_eq_if_modifyHead, List.splitOn_cons_eq_if_modifyHead, ih, split]
    by_cases newline : c = '\n'
    · subst newline
      rfl
    · by_cases cr : c = '\r'
      · -- It is the first of the line, in front of which there is an empty record.
        subst cr
        rw [if_pos rfl, if_pos (by decide), if_neg (by decide), List.modifyHead_cons,
          List.flatMap_cons, List.flatMap_cons, List.splitOn_cons_eq_if_modifyHead,
          if_pos (by decide)]
        rfl
      · rw [if_neg cr, if_neg (by simpa using newline), if_neg (by simpa using newline),
          List.modifyHead_cons, List.flatMap_cons, List.flatMap_cons,
          List.splitOn_cons_eq_if_modifyHead, if_neg (by simpa using cr), cut]
        rfl

/-- A line is blank when its parts are. -/
theorem blank_intercalate {c : Char} (space : isspace c = true) {parts : List CStr} :
    blank ([c].intercalate parts) = true ↔ ∀ part ∈ parts, blank part = true := by
  -- By induction on the parts, which are joined by white space.
  induction parts with
  | nil => exact iff_of_true rfl (List.forall_mem_nil _)
  | cons part parts ih =>
    cases parts with
    | nil => simp [List.intercalate]
    | cons second parts =>
      rw [List.intercalate_cons_cons, List.forall_mem_cons, ← ih]
      simp [blank, space]

/-- The parts of a line tell what the line tells when only one of them is not blank. -/
theorem told_parts {c : Char} (space : isspace c = true) {parts : List CStr}
    (one : parts.countP (fun rec => !blank rec) ≤ 1) :
    told parts = told [[c].intercalate parts] := by
  induction parts with
  | nil => rfl
  | cons part parts ih =>
    cases parts with
    | nil => rw [List.intercalate_singleton]
    | cons second parts =>
      rw [List.intercalate_cons_cons]
      cases is : blank part with
      | true =>
        -- What is in front of the other parts is trimmed.
        rw [List.countP_cons_of_neg (by rw [is]; exact Bool.false_ne_true)] at one
        have front : blank (part ++ [c]) = true := by
          rw [blank, List.all_append, Bool.and_eq_true]
          exact ⟨is, by rw [List.all_cons, space]; rfl⟩
        rw [told_cons_blank is, ih one, told, told, List.map_singleton, List.map_singleton,
          trimmed_blank_append front]
      | false =>
        -- Nothing but white space follows.
        rw [List.countP_cons_of_pos (by rw [is]; rfl)] at one
        have none_ : ∀ part ∈ second :: parts, blank part = true := by
          intro part among
          have zero := List.countP_eq_zero.mp
            (Nat.le_zero.mp (Nat.le_of_succ_le_succ one)) part among
          simpa using zero
        have rest : told (second :: parts) = [] := by
          rw [← List.length_eq_zero_iff, length_told]
          exact Nat.le_zero.mp (Nat.le_of_succ_le_succ one)
        have back : blank (c :: [c].intercalate (second :: parts)) = true := by
          rw [blank, List.all_cons, space, Bool.true_and]
          exact (blank_intercalate space).mpr none_
        have whole : trimmed (part ++ [c] ++ [c].intercalate (second :: parts)) = trimmed part := by
          rw [List.append_assoc]
          exact trimmed_append_blank back
        rw [told_cons_some is, rest, told, List.map_singleton, whole, List.filter_cons_of_pos,
          List.filter_nil]
        simpa [trimmed_eq_nil] using is

/-- The records that tell something in each part of a text are found there one by one. -/
theorem told_flatMap {α : Type} (parts : List α) (split : α → List CStr) :
    told (parts.flatMap split) = parts.flatMap fun part => told (split part) := by
  -- By induction on the parts.
  induction parts with
  | nil => rfl
  | cons part parts ih => rw [List.flatMap_cons, told_append, ih, List.flatMap_cons]

/-- The parts of a line are split at carriage returns. -/
theorem told_splitOn_cr {line : CStr}
    (one : (line.splitOn '\r').countP (fun rec => !blank rec) ≤ 1) :
    told (line.splitOn '\r') = told [line] := by
  -- At most one of the parts tells something, so that they tell what they tell together.
  have parts := told_parts (c := '\r') (by decide) one
  rw [List.intercalate_splitOn] at parts
  exact parts

/-- A line tells as much as its parts exactly when only one of them is not blank. -/
theorem length_told_splitOn_cr (line : CStr) :
    (told [line]).length ≤ (told (line.splitOn '\r')).length ∧
      ((told (line.splitOn '\r')).length ≤ (told [line]).length ↔
        (line.splitOn '\r').countP (fun rec => !blank rec) ≤ 1) := by
  -- A line tells at most once, and as many times as its parts where one is not blank.
  have few : (told [line]).length ≤ 1 := by
    rw [told]
    exact List.length_filter_le _ _
  by_cases one : (line.splitOn '\r').countP (fun rec => !blank rec) ≤ 1
  · rw [told_splitOn_cr one]
    exact ⟨Nat.le_refl _, iff_of_true (Nat.le_refl _) one⟩
  · rw [length_told (line.splitOn '\r')]
    exact ⟨by omega, by omega⟩

/-- Where more is found each time, and no more in all, the same number is found each time. -/
theorem length_flatMap_eq {lines : List CStr} {found more : CStr → List CStr}
    (each : ∀ line, (found line).length ≤ (more line).length)
    (all : (lines.flatMap more).length ≤ (lines.flatMap found).length) :
    ∀ line ∈ lines, (more line).length ≤ (found line).length := by
  -- By induction on the lines: the sums are equal, and each term is no less.
  induction lines with
  | nil => exact List.forall_mem_nil _
  | cons line lines ih =>
    have bound : (lines.flatMap found).length ≤ (lines.flatMap more).length := by
      rw [List.length_flatMap, List.length_flatMap]
      exact List.sum_le_sum fun line _ => each line
    rw [List.flatMap_cons, List.flatMap_cons, List.length_append, List.length_append] at all
    have here := each line
    exact List.forall_mem_cons.mpr ⟨by omega, ih (by omega)⟩

/-- Lines tell the same when they are split at carriage returns exactly when none has two parts that
are not blank. -/
theorem told_flatMap_splitOn_cr (lines : List CStr) :
    told (lines.flatMap fun line => line.splitOn '\r') = told lines ↔
      ∀ line ∈ lines, (line.splitOn '\r').countP (fun rec => !blank rec) ≤ 1 := by
  -- Splitting finds no fewer records in any line, so that it must find as many in each.
  have each : told lines = lines.flatMap fun line => told [line] := by
    conv_lhs => rw [← List.flatMap_singleton' lines, told_flatMap]
  rw [each, told_flatMap]
  constructor
  · intro same line among
    refine (length_told_splitOn_cr line).2.mp ?_
    exact length_flatMap_eq (fun line => (length_told_splitOn_cr line).1)
      (Nat.le_of_eq (congrArg List.length same)) line among
  · intro one
    exact List.flatMap_congr fun line among => told_splitOn_cr (one line among)

/-- The text of records is that of one after the other. -/
theorem textOf_append (recs recs' : List TextRec) :
    textOf (recs ++ recs') = textOf recs ++ textOf recs' := List.flatMap_append

/-- The last character of a text of records belongs to a terminator. -/
theorem terminated_textOf (recs : List TextRec) : Terminated (textOf recs) := by
  -- The terminators are a newline, a carriage return, or the one behind the other.
  rcases List.eq_nil_or_concat recs with rfl | ⟨before, rec, rfl⟩
  · intro last is
    cases is
  · intro last is
    rw [List.concat_eq_append, textOf_append] at is
    change last ∈ (textOf before ++ (rec.text ++ rec.term.text ++ [])).getLast? at is
    rw [List.append_nil, ← List.append_assoc] at is
    cases term : rec.term with
    | newline | cr =>
      rw [term, Terminator.text, List.getLast?_concat] at is
      cases is
      simp
    | crlf =>
      rw [term, show Terminator.crlf.text = ['\r'] ++ ['\n'] from rfl, ← List.append_assoc,
        List.getLast?_concat] at is
      cases is
      exact .inl rfl

/-- There is no nil character in a text of records. -/
theorem nul_textOf (recs : List TextRec) : '\x00' ∉ textOf recs := by
  -- Neither a record's text nor its terminator has one.
  intro among
  obtain ⟨rec, _, among⟩ := List.mem_flatMap.mp among
  rcases List.mem_append.mp among with inText | inTerm
  · exact (rec.clean _ inText).2.2 rfl
  · revert inTerm
    cases rec.term <;> decide

/-- A file tells what its messages tell, when carriage returns are taken for newlines in them. -/
theorem toldBy_flatten (msgs : List (List TextRec)) :
    toldBy (fixBroken (textOf msgs.flatten)) =
      msgs.flatMap fun msg => toldBy (fixBroken (textOf msg)) := by
  -- By induction on the messages, each of which is terminated.
  induction msgs with
  | nil => rfl
  | cons msg msgs ih =>
    rw [List.flatten_cons, textOf_append, toldBy_fixBroken_append (terminated_textOf msg), ih,
      List.flatMap_cons]

/-- The work buffer is never too small for a message, as long as twice its length is an `int`. -/
theorem roomFor_ok (junk : Nat → Char) (pbuf : List Char) {mlen : Nat} (fits : mlen < 1073741824) :
    ∃ room, roomFor junk pbuf mlen = .ok room ∧ mlen < room.length := by
  -- The buffer is grown to twice the length, or to 1024 bytes, if it is too small.
  unfold roomFor
  by_cases small : pbuf.length ≤ mlen
  · rw [if_pos small]
    by_cases short : mlen < 512
    · rw [if_pos short]
      refine ⟨(List.range 1024).map junk, rfl, ?_⟩
      rw [List.length_map, List.length_range]
      omega
    · have twice : toInt ((mlen : Int) * 2) = (mlen * 2 : Nat) := by
        rw [← toInt_natCast (n := mlen * 2) (by simp only [intMax]; omega)]
        rfl
      refine ⟨(List.range (mlen * 2)).map junk, ?_, ?_⟩
      · rw [if_neg short, twice]
        rfl
      · rw [List.length_map, List.length_range]
        omega
  · exact ⟨pbuf, if_neg small, Nat.lt_of_not_le small⟩

/-- The records of a message are those of its payload, whatever was in the work buffer. -/
theorem msgRecs_payload {payload : CStr} (clean : '\x00' ∉ payload) (rest : List Char) :
    msgRecs (payload ++ '\x00' :: rest) = payload.splitOn '\n' := by
  -- The buffer is read up to its first zero byte, which is the one behind the payload.
  have whole : cString (payload ++ '\x00' :: rest) = payload := by
    rw [cString, List.takeWhile_append_of_pos, List.takeWhile_cons_of_neg (by decide),
      List.append_nil]
    intro c among
    simpa using fun (is : c = '\x00') => clean (is ▸ among)
  rw [msgRecs, whole]

/-- A file and messages give the parser the same records exactly when no two records have only a
carriage return between them in a message. -/
theorem told_fileRecs_iff (msgs : List (List TextRec)) :
    told (fileRecs (textOf msgs.flatten)) =
        told (msgs.flatMap fun msg => (textOf msg).splitOn '\n') ↔
      ∀ msg ∈ msgs, OnePerLine (textOf msg) := by
  -- The file's records are those of the messages' lines, split again at carriage returns.
  have lines : told (fileRecs (textOf msgs.flatten)) =
      told ((msgs.flatMap fun msg => (textOf msg).splitOn '\n').flatMap
        fun line => line.splitOn '\r') := by
    rw [told_fileRecs (nul_textOf _), toldBy_flatten, List.flatMap_assoc, told_flatMap]
    refine List.flatMap_congr fun msg _ => ?_
    rw [toldBy, splitOn_fixBroken]
  rw [lines, told_flatMap_splitOn_cr]
  constructor
  · intro all msg among line inMsg
    exact all line (List.mem_flatMap.mpr ⟨msg, among, inMsg⟩)
  · intro each line among
    obtain ⟨msg, among, inMsg⟩ := List.mem_flatMap.mp among
    exact each msg among line inMsg

/-- What is read from messages is what is read from their records in a row. -/
theorem MsgReader.foldlM_rtcParseMsg {conf : RtConf} {mems : Nat → Mem} {junk : Nat → Char}
    {reader : MsgReader} {msgs : List (List TextRec)}
    (fits : ∀ msg ∈ msgs, (textOf msg).length < 1073741824) :
    ((msgs.map tableMsg).foldlM (rtcParseMsg conf mems junk) reader).map MsgReader.read =
      reader.read.readRecs conf mems (msgs.flatMap fun msg => (textOf msg).splitOn '\n') := by
  -- By induction on the messages: each of them is read from a buffer that had room for it.
  induction msgs generalizing reader with
  | nil => rfl
  | cons msg msgs ih =>
    obtain ⟨room, has, _⟩ := roomFor_ok junk reader.pbuf (fits msg List.mem_cons_self)
    have first : reader.rtcParseMsg conf mems junk (tableMsg msg) =
        (reader.read.readRecs conf mems ((textOf msg).splitOn '\n')).map fun read =>
          ⟨read, textOf msg ++ '\x00' :: room.drop ((textOf msg).length + 1), true⟩ := by
      unfold rtcParseMsg
      change (if rmrrmTableData = rmrrmTableData then
        (roomFor junk reader.pbuf (textOf msg).length >>= _) else _) = _
      rw [if_pos rfl, has]
      change (reader.read.readRecs conf mems (msgRecs (textOf msg ++ '\x00' :: _)) >>= _) = _
      rw [msgRecs_payload (nul_textOf msg)]
      rfl
    have both : reader.read.readRecs conf mems ((textOf msg).splitOn '\n' ++
        msgs.flatMap fun msg => (textOf msg).splitOn '\n') =
        (reader.read.readRecs conf mems ((textOf msg).splitOn '\n') >>= fun read =>
          read.readRecs conf mems (msgs.flatMap fun msg => (textOf msg).splitOn '\n')) :=
      List.foldlM_append
    rw [List.map_cons, List.foldlM_cons, first, List.flatMap_cons, both]
    cases reader.read.readRecs conf mems ((textOf msg).splitOn '\n') with
    | error fault => rfl
    | ok read => exact ih fun msg later => fits msg (List.mem_cons_of_mem _ later)

/-- A file and messages of its records leave the same tables, from any start, when no two records
have only a carriage return between them in a message, and no message is too long for the work
buffer. -/
theorem TableRead.readStaticRt_eq_messages (conf : RtConf) (mems : Nat → Mem) (junk : Nat → Char)
    (reader : MsgReader) (msgs : List (List TextRec))
    (apart : ∀ msg ∈ msgs, OnePerLine (textOf msg) ∧ (textOf msg).length < 1073741824) :
    (reader.read.readStaticRt conf mems (textOf msgs.flatten)).map TableRead.tables =
      ((msgs.map tableMsg).foldlM (MsgReader.rtcParseMsg conf mems junk) reader).map
        fun reader => reader.read.tables := by
  have messages : ((msgs.map tableMsg).foldlM (MsgReader.rtcParseMsg conf mems junk) reader).map
      MsgReader.read =
      reader.read.readRecs conf mems (msgs.flatMap fun msg => (textOf msg).splitOn '\n') :=
    MsgReader.foldlM_rtcParseMsg fun msg among => (apart msg among).2
  -- Both ways, the same records tell something.
  have same := (told_fileRecs_iff msgs).mpr fun msg among => (apart msg among).1
  have whole : ((msgs.map tableMsg).foldlM (MsgReader.rtcParseMsg conf mems junk) reader).map
      (fun reader => reader.read.tables) =
      (reader.read.readRecs conf mems (fileRecs (textOf msgs.flatten))).map TableRead.tables := by
    rw [← readRecs_told, same, readRecs_told, ← messages]
    cases (msgs.map tableMsg).foldlM (MsgReader.rtcParseMsg conf mems junk) reader with
    | error fault => rfl
    | ok next => rfl
  rw [whole, readStaticRt]
  cases reader.read.readRecs conf mems (fileRecs (textOf msgs.flatten)) with
  | error fault => rfl
  | ok next => rfl

/-- Where there are no addresses, each of them has a port. -/
theorem addressed_nil : ∀ addr ∈ ([] : List CStr), ':' ∈ addr :=
  fun _ among => absurd among List.not_mem_nil

/-- A process that is known by one name only. -/
def RtConf.alone : RtConf := ⟨[':'], [], List.mem_cons_self, addressed_nil⟩

/-- A table whose records end in each of the ways, in two messages. -/
def mixedEnds : List (List TextRec) :=
  [[⟨['n', 'e', 'w', 'r', 't', '|', 's', 't', 'a', 'r', 't', '|', 't'], .crlf, by simp⟩,
    ⟨['r', 't', 'e', '|', '1', '|', 'a', ':', '1'], .newline, by simp⟩],
    [⟨['n', 'e', 'w', 'r', 't', '|', 'e', 'n', 'd', '|', '1'], .cr, by simp⟩]]

/-- Both ways, it leaves the same tables. -/
theorem TableRead.readStaticRt_eq_messages_two :
    (TableRead.readStaticRt RtConf.alone (fun _ => .ample) ⟨.init, 0⟩
      (textOf mixedEnds.flatten)).map
        TableRead.tables =
      ((mixedEnds.map tableMsg).foldlM
        (MsgReader.rtcParseMsg RtConf.alone (fun _ => .ample) fun _ => '?')
        ⟨⟨.init, 0⟩, [], false⟩).map fun reader => reader.read.tables :=
  TableRead.readStaticRt_eq_messages RtConf.alone (fun _ => .ample) (fun _ => '?')
    ⟨⟨.init, 0⟩, [], false⟩ mixedEnds (by decide +kernel)

/-- A table of two records that end with a carriage return, in one message. -/
def returnEnds : List (List TextRec) :=
  [[⟨['n', 'e', 'w', 'r', 't', '|', 's', 't', 'a', 'r', 't'], .cr, by simp⟩,
    ⟨['n', 'e', 'w', 'r', 't', '|', 'e', 'n', 'd'], .cr, by simp⟩]]

/-- It is loaded from a file; in a message, its two records are taken for one. -/
theorem TableRead.readStaticRt_ne_messages :
    ¬ ∀ (conf : RtConf) (mems : Nat → Mem) (junk : Nat → Char) (reader : MsgReader)
      (msgs : List (List TextRec)),
      (reader.read.readStaticRt conf mems (textOf msgs.flatten)).map TableRead.tables =
        ((msgs.map tableMsg).foldlM (MsgReader.rtcParseMsg conf mems junk) reader).map
          fun reader => reader.read.tables := by
  -- Both are evaluated: the file rolls its table in, and the message does not.
  intro same
  have agree := same RtConf.alone (fun _ => .ample)
    (fun _ => '?') ⟨⟨.init, 0⟩, [], false⟩ returnEnds
  have file : Yields (fun ctx => ctx.rolls = 1)
      ((TableRead.readStaticRt RtConf.alone (fun _ => .ample) ⟨.init, 0⟩
        (textOf returnEnds.flatten)).map TableRead.tables) := by
    decide +kernel
  have message : Yields (fun ctx => ctx.rolls = 0)
      (((returnEnds.map tableMsg).foldlM
        (MsgReader.rtcParseMsg RtConf.alone (fun _ => .ample) fun _ => '?')
        ⟨⟨.init, 0⟩, [], false⟩).map fun reader => reader.read.tables) := by
    decide +kernel
  obtain ⟨ctx, loaded, once⟩ := file.exists
  have never := message.of_ok (agree.symm.trans loaded)
  rw [once] at never
  cases never

end Rmr

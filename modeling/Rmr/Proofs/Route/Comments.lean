import Rmr.Proofs.Route.AlikeBound
import Rmr.Proofs.Route.AlikeEntry

/-! Comments and blanks in a record: when they change what the record does. -/

namespace Rmr

open RtCtx

variable {conf : RtConf} {mem : Mem} {fields fields' : List CStr}

/-- A kind does the same with some fields as with others exactly when it reads the same in them. -/
theorem kind_alike_iff (kind : RecKind) :
    Alike (kind.run conf fields) (kind.run conf fields') ↔
      kind.reading conf fields' = kind.reading conf fields := by
  -- One case for each kind of record, each with its lemma.
  cases kind with
  | del => exact del_alike_iff.trans (by simp [RecKind.reading])
  | newrt => exact newrt_alike_iff.trans (by simp [RecKind.reading])
  | updatert => exact updatert_alike_iff.trans (by simp [RecKind.reading])
  | rte => exact rte_alike_iff.trans (by simp [RecKind.reading])
  | mse => exact mse_alike_iff.trans (by simp [RecKind.reading])
  | meidMap => exact meidMap_alike_iff.trans (by simp [RecKind.reading])
  | mmeAr => exact mmeAr_alike_iff.trans (by simp [RecKind.reading])
  | mmeDel => exact mmeDel_alike_iff.trans (by simp [RecKind.reading])
  | other => exact iff_of_true (Alike.of_eq fun ctx mem => rfl) rfl

/-- What is read of a record is what its kind reads in its fields. -/
theorem reading_of_cons {buf name : CStr}
    (tokens : utaTokenise (trimmed buf) 128 '|' = name :: fields) :
    reading conf buf = (kindOf buf).reading conf fields := by
  rw [← kindOf_of_cons tokens]
  unfold reading
  rw [show utaTokenise (trimEnd (buf.dropWhile isspace)) 128 '|' = name :: fields from tokens]

/-- A record of no known kind does nothing, and nothing is read of it. -/
theorem nothing_of_other {buf : CStr} (is : kindOf buf = .other) :
    (∀ ctx : RtCtx, ctx.parseRtRec conf mem buf = .ok ctx) ∧ reading conf buf = .other := by
  -- Without tokens there is no name; with one its kind is that of the record.
  cases tokens : utaTokenise (trimmed buf) 128 '|' with
  | nil =>
    refine ⟨fun ctx => parseRtRec_of_nil tokens, ?_⟩
    unfold reading
    rw [show utaTokenise (trimEnd (buf.dropWhile isspace)) 128 '|' = [] from tokens]
  | cons name fields =>
    refine ⟨fun ctx => ?_, ?_⟩
    · rw [parseRtRec_of_cons tokens, is]
      rfl
    · rw [reading_of_cons tokens, is]
      rfl

/-- A line that starts with a comment sign is of no known kind. -/
theorem kindOf_sign {space : CStr} (is : Blanks space) (text : CStr) :
    kindOf (space ++ '#' :: text) = .other := by
  -- The sign is the first character of the name, and clipping takes all behind it.
  have dark : isspace '#' = false := by decide
  have clear : decide ('#' ≠ '|') = true := rfl
  apply recKind_of_head
  rw [List.takeWhile_append_of_pos (List.takeWhile_eq_self_iff.mp (takeWhile_blank is.blank)),
    List.takeWhile_cons, if_pos clear, clip_blank_append is.blank, head?_clip,
    List.dropWhile_cons_of_neg (by simp [dark])]
  rfl

/-- Comments and blanks in a record do not change its effect exactly when the handler reads the same
in it; and a line whose first character, but for blanks, is a comment sign does nothing. -/
theorem parseRtRec_comments (conf : RtConf) :
    (∀ rec other : CStr, Changed rec other →
      (SameEffect conf rec other ↔ reading conf other = reading conf rec)) ∧
    ∀ (ctx : RtCtx) (mem : Mem) (space text : CStr), Blanks space →
      ctx.parseRtRec conf mem (space ++ '#' :: text) = .ok ctx := by
  constructor
  · intro rec other changed
    have kinds := changed.kindOf_eq
    cases tokens : utaTokenise (trimmed rec) 128 '|' with
    | nil =>
      -- Both records are of no known kind.
      have idle := kindOf_of_nil tokens
      have idle' := kinds.trans idle
      refine iff_of_true (fun ctx mem wbuf => ?_) ?_
      · rw [(nothing_of_other idle).1, (nothing_of_other idle').1]
      · rw [(@nothing_of_other conf .ample _ idle).2, (@nothing_of_other conf .ample _ idle').2]
    | cons name fields =>
      cases tokens' : utaTokenise (trimmed other) 128 '|' with
      | nil =>
        have idle' := kindOf_of_nil tokens'
        have idle := kinds.symm.trans idle'
        refine iff_of_true (fun ctx mem wbuf => ?_) ?_
        · rw [(nothing_of_other idle).1, (nothing_of_other idle').1]
        · rw [(@nothing_of_other conf .ample _ idle).2, (@nothing_of_other conf .ample _ idle').2]
      | cons name' fields' =>
        rw [sameEffect_iff kinds tokens tokens', kind_alike_iff, reading_of_cons tokens,
          reading_of_cons tokens', kinds]
  · intro ctx mem space text blanks
    exact (nothing_of_other (kindOf_sign blanks text)).1 ctx

/-- A comment in which there is no separator, and a blank in front of a separator. -/
theorem parseRtRec_comments_del :
    (SameEffect confHere "del|1|5".toList "del |1|5 # gone".toList ↔
      reading confHere "del |1|5 # gone".toList = reading confHere "del|1|5".toList) ∧
    RtCtx.init.parseRtRec confHere .ample " # del|1|5".toList = .ok RtCtx.init := by
  -- Both changes are spelled out, so that the theorems apply.
  have blanks : Blanks [' '] := by simp [Blanks]
  have none_ : Blanks [] := by simp [Blanks]
  refine ⟨(parseRtRec_comments confHere).1 _ _ ?_,
    (parseRtRec_comments confHere).2 _ _ [' '] " del|1|5".toList blanks⟩
  have spaced : Spaced "del|1|5".toList "del |1|5".toList :=
    .keep 'd' (.keep 'e' (.keep 'l' (.around blanks none_ (.keep '1' (.around none_ none_
      (.keep '5' .nil))))))
  exact .commented spaced (.inl rfl) (by decide)

/-- What stands behind a separator in a comment is read as the subscription id. -/
theorem parseRtRec_comment_read :
    Changed "rte|1|a:1".toList "rte|1|a:1 # was b|0".toList ∧
      ¬ SameEffect confHere "rte|1|a:1".toList "rte|1|a:1 # was b|0".toList := by
  -- In a table in progress the two entries get different keys.
  constructor
  · have none_ : Blanks [] := by simp [Blanks]
    have spaced : Spaced "rte|1|a:1".toList "rte|1|a:1".toList :=
      .keep 'r' (.keep 't' (.keep 'e' (.around none_ none_ (.keep '1' (.around none_ none_
        (.keep 'a' (.keep ':' (.keep '1' .nil))))))))
    exact .commented spaced (.inl rfl) (by decide)
  · intro same
    have seen := same (inProgress .empty) .ample []
    have plain : Yields (fun next => ((next.seen []).tables 0).map
        (fun table => table.mt (buildRtKey (-1) 1)) = some (some 0))
        ((inProgress .empty).parseRtRec confHere .ample "rte|1|a:1".toList) := by
      decide +kernel
    have commented : Yields (fun next => ((next.seen []).tables 0).map
        (fun table => table.mt (buildRtKey (-1) 1)) = some none)
        ((inProgress .empty).parseRtRec confHere .ample "rte|1|a:1 # was b|0".toList) := by
      decide +kernel
    obtain ⟨next, is, found⟩ := plain.exists
    obtain ⟨next', is', found'⟩ := commented.exists
    rw [is, is'] at seen
    have tables := congrArg (fun seen : Except RtFault Seen => seen.map fun seen =>
      (seen.tables 0).map fun table => table.mt (buildRtKey (-1) 1)) seen
    simp [Except.map, found, found'] at tables

end Rmr

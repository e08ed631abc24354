import PotExtract.Proofs.Comment.Runs
import PotExtract.Proofs.Python.Findings

/-! Where the comments of a source go. A comment on the line of the last call that counts stands
beside that call, and any other is loose. The comment above a call is the last of the loose ones in
front of it, joined with those on the lines above that one. -/

namespace PotExtract

namespace Python

open CommentCollector (note?)

/-- A call that is found, with what is found before and after it. -/
structure CallSite where
  before : List Finding
  line : Nat
  fields : Resolved
  after : List Finding

/-- The calls among findings that follow others. -/
def sitesFrom (before : List Finding) : List Finding → List CallSite
  | [] => []
  | .comment text line :: fs => sitesFrom (before ++ [.comment text line]) fs
  | .call line r :: fs => ⟨before, line, r, fs⟩ :: sitesFrom (before ++ [.call line r]) fs

/-- The calls among findings. -/
def sites (fs : List Finding) : List CallSite :=
  sitesFrom [] fs

section Places

variable (policy : CommentPolicy) (counts : Resolved → Bool)

/-- The line of the last call that counts, which is `last` in front of the findings. -/
def lineOfLast (last : Option Nat) : List Finding → Option Nat
  | [] => last
  | .comment _ _ :: fs => lineOfLast last fs
  | .call line r :: fs => lineOfLast (if counts r then some line else last) fs

/-- The comments that stand beside no call that counts, the last one of which is on line `last`. -/
def loose (last : Option Nat) : List Finding → List Note
  | [] => []
  | .comment text line :: fs =>
    (if last = some line then [] else (note? policy text line).toList) ++ loose last fs
  | .call line r :: fs => loose (if counts r then some line else last) fs

/-- The comments beside a call on `line` that counts. -/
def beside (line : Nat) : List Finding → List Note
  | [] => []
  | .comment text l :: fs => (if l = line then (note? policy text l).toList else []) ++ beside line fs
  | .call _ r :: fs => if counts r then [] else beside line fs

/-- The comments in front of a call that wait for one. -/
def waiting (before : List Finding) : CommentCollector :=
  { policy := policy, pending := (loose policy counts none before).foldl CommentCollector.join none }

theorem loose_append (last : Option Nat) (fs gs : List Finding) :
    loose policy counts last (fs ++ gs) =
      loose policy counts last fs ++ loose policy counts (lineOfLast counts last fs) gs := by
  fun_induction lineOfLast counts last fs with
  | case1 => rfl
  | case2 last text line fs ih => simp [loose, ih]
  | case3 last line r fs ih => simpa [loose] using ih

theorem lineOfLast_append (last : Option Nat) (fs gs : List Finding) :
    lineOfLast counts last (fs ++ gs) = lineOfLast counts (lineOfLast counts last fs) gs := by
  fun_induction lineOfLast counts last fs with
  | case1 => rfl
  | case2 last text line fs ih => exact ih
  | case3 last line r fs ih => exact ih

theorem waiting_concat_comment (before : List Finding) (text : String) (line : Nat) :
    waiting policy counts (before ++ [.comment text line]) =
      if lineOfLast counts none before = some line then waiting policy counts before
      else
        { policy := policy
          pending := (note? policy text line).toList.foldl CommentCollector.join
            (waiting policy counts before).pending } := by
  split
  · next h => simp [waiting, loose_append, loose, h]
  · next h => simp [waiting, loose_append, loose, h]

theorem waiting_concat_call (before : List Finding) (line : Nat) (r : Resolved) :
    waiting policy counts (before ++ [.call line r]) = waiting policy counts before := by
  simp [waiting, loose_append, loose]

end Places

/-- The message of a call with the comments above and beside it. -/
def CallSite.message (ctx : ScanContext) (counts : Resolved → Bool) (site : CallSite) : Message :=
  (beside ctx.options.comments counts site.line site.after).foldl
    (fun m note => ScanState.annotate note m)
    (ScanState.messageOf ctx (waiting ctx.options.comments counts site.before) site.line site.fields)

namespace Ledger

variable {ctx : ScanContext}

/-- The messages once the last of them is annotated. -/
def annotateLast (notes : List Note) (messages : List Message) : List Message :=
  messages.modify (messages.length - 1) fun m =>
    notes.foldl (fun m note => ScanState.annotate note m) m

theorem annotateLast_nil (messages : List Message) : annotateLast [] messages = messages := by
  exact List.modify_id _ _

theorem annotateLast_append (notes more : List Note) (messages : List Message) :
    annotateLast (notes ++ more) messages = annotateLast more (annotateLast notes messages) := by
  simp [annotateLast, List.modify_modify_eq, Function.comp_def]

theorem annotateLast_concat (notes : List Note) (messages : List Message) (m : Message) :
    annotateLast notes (messages ++ [m]) =
      messages ++ [notes.foldl (fun m note => ScanState.annotate note m) m] := by
  have h : messages.length < (messages ++ [m]).length := by simp
  simp [annotateLast, List.modify_eq_take_cons_drop h]

theorem add_beside {l : Ledger} {text : String} {line : Nat} (h : l.lastLine = some line) :
    l.add ctx (.comment text line) =
      { l with
        messages := annotateLast (note? l.comments.policy text line).toList l.messages } := by
  simp only [add, CommentCollector.collect, h, if_true]
  cases note? l.comments.policy text line with
  | none => simp [annotateLast_nil, ← h]
  | some note => simp [annotateLast, ← h]

theorem add_loose {l : Ledger} {text : String} {line : Nat} (h : l.lastLine ≠ some line) :
    l.add ctx (.comment text line) =
      { l with
        comments :=
          { l.comments with
            pending := (note? l.comments.policy text line).toList.foldl CommentCollector.join
              l.comments.pending } } := by
  obtain ⟨hcomments, htarget⟩ := CommentCollector.collect_loose l.comments text h
  rw [← hcomments]
  cases hc : l.comments.collect text line l.lastLine with
  | mk comments target =>
    rw [hc] at htarget
    unfold add
    dsimp only
    rw [hc]
    split
    · next he => exact absurd (congrArg Prod.snd he) (htarget _)
    · next he => cases he; rfl

/-- The comments that go to the last message, if one is found on line `last`. -/
def besideLast (ctx : ScanContext) (last : Option Nat) (fs : List Finding) : List Note :=
  match last with
  | some line => beside ctx.options.comments ctx.wants line fs
  | none => []

/-- Behind findings whose ledger is `l`, each comment is noted where it belongs. -/
theorem messages_foldl {l : Ledger} (before fs : List Finding)
    (hcomments : l.comments =
      waiting ctx.options.comments ctx.wants before)
    (hlast : l.lastLine = lineOfLast ctx.wants none before) :
    (fs.foldl (add ctx) l).messages =
      annotateLast (besideLast ctx l.lastLine fs) l.messages ++
        ((sitesFrom before fs).filter (ctx.wants ·.fields)).map
          (CallSite.message ctx ctx.wants) := by
  induction fs generalizing before l with
  | nil =>
    have : besideLast ctx l.lastLine [] = [] := by
      unfold besideLast
      split <;> rfl
    simp [this, annotateLast_nil, sitesFrom]
  | cons f fs ih =>
    cases f with
    | comment text line =>
      by_cases hl : l.lastLine = some line
      · -- the comment stands beside the last message
        rw [List.foldl_cons, add_beside hl, ih (before ++ [.comment text line])]
        · show annotateLast _ (annotateLast _ _) ++ _ = _
          rw [← annotateLast_append, hl, hcomments]
          simp [besideLast, beside, sitesFrom, waiting]
        · rw [hcomments, waiting_concat_comment, if_pos (hlast ▸ hl)]
        · rw [lineOfLast_append]
          exact hlast
      · rw [List.foldl_cons, add_loose hl, ih (before ++ [.comment text line])]
        · have hbeside : besideLast ctx l.lastLine (.comment text line :: fs) =
              besideLast ctx l.lastLine fs := by
            unfold besideLast
            split
            · next last hlast' =>
              have : line ≠ last := fun h => hl (hlast'.trans (congrArg some h.symm))
              simp [beside, this]
            · rfl
          rw [hbeside]
          rfl
        · rw [waiting_concat_comment, if_neg (hlast ▸ hl), ← hcomments, hcomments]
          rfl
        · rw [lineOfLast_append]
          exact hlast
    | call line r =>
      by_cases hw : ctx.wants r
      · rw [List.foldl_cons, show l.add ctx (.call line r) = _ from if_pos hw,
          ih (before ++ [.call line r])]
        · have hbeside : besideLast ctx l.lastLine (.call line r :: fs) = [] := by
            unfold besideLast
            split
            · simp [beside, hw]
            · rfl
          simp only [annotateLast_concat, hbeside, annotateLast_nil, sitesFrom, List.filter_cons, hw,
            if_true, List.map_cons, List.append_assoc, List.singleton_append]
          rw [hcomments]
          rfl
        · exact hcomments.trans (waiting_concat_call _ _ before line r).symm
        · simp [lineOfLast_append, lineOfLast, hw]
      · rw [List.foldl_cons, show l.add ctx (.call line r) = l from if_neg hw,
          ih (before ++ [.call line r])]
        · have hbeside : besideLast ctx l.lastLine (.call line r :: fs) =
              besideLast ctx l.lastLine fs := by
            unfold besideLast
            split
            · simp [beside, hw]
            · rfl
          simp [hbeside, sitesFrom, hw]
        · exact hcomments.trans (waiting_concat_call _ _ before line r).symm
        · simpa [lineOfLast_append, lineOfLast, hw] using hlast

end Ledger

end Python

end PotExtract

import BraceTemplate.Proofs.Answering
import BraceTemplate.Proofs.Builder.Held

/-!
# Builders asked for anything

A builder may be asked for anything in any order, also for what it refuses. Its
open blocks hold the spans that it took, in the order in which it took them, and
its diagnostics are those that were reported. Blocks that are opened, renamed,
closed or merged change the shape of the tree only.
-/

namespace BraceTemplate

namespace Builder

/-- What a builder can be asked for. -/
inductive Request where
  | openRoot
  | startBlock (kind : BlockKind)
  | endBlock
  | release (limit : Nat)
  | mergeWithParent
  | pushSpan (span : Span)
  | setName (name : String)
  | setKind (kind : BlockKind)
  | report (d : Diagnostic)

namespace Request

/-- The span that was taken, unless the request was refused. -/
def taken? : Request → Except Fault Unit → Option Span
  | pushSpan span, .ok () => some span
  | _, _ => none

def reported? : Request → Option Diagnostic
  | report d => some d
  | _ => none

end Request

def answer (b : Builder) : Request → Builder × Except Fault Unit
  | .openRoot => settle b () b.openRoot
  | .startBlock kind => settle b () (b.startBlock kind)
  | .endBlock => settle b () b.endBlock
  | .release limit => b.release limit
  | .mergeWithParent => settle b () b.mergeWithParent
  | .pushSpan span => settle b () (b.pushSpan span)
  | .setName name => settle b () (b.setName name)
  | .setKind kind => settle b () (b.setKind kind)
  | .report d => (b.report d, .ok ())

/-- The spans that were taken, in order. -/
def takenSpans (requests : List Request) (results : List (Except Fault Unit)) : List Span :=
  (requests.zip results).filterMap fun (request, result) => request.taken? result

/-- Neither spans nor diagnostics come or go, whatever becomes of the blocks. -/
structure Keeps (b c : Builder) : Prop where
  held : held c.stack = held b.stack
  diagnostics : c.diagnostics = b.diagnostics

section Keeps
variable {b c d : Builder}

theorem Keeps.refl (b : Builder) : Keeps b b := ⟨rfl, rfl⟩

theorem Keeps.trans (h : Keeps b c) (h' : Keeps c d) : Keeps b d :=
  ⟨h'.held.trans h.held, h'.diagnostics.trans h.diagnostics⟩

/-- A new block holds nothing. -/
theorem held_empty (kind : BlockKind) (stack : List OpenBlock) :
    held (.empty kind :: stack) = held stack := by
  rw [held, OpenBlock.empty, Node.spansOf_nil, List.append_nil]

theorem keeps_of_openRoot (h : b.openRoot = .ok c) : Keeps b c := by
  obtain ⟨stack, ds⟩ := b
  cases stack with
  | nil => cases h; exact ⟨held_empty .text [], rfl⟩
  | cons => cases h

theorem keeps_of_startBlock {kind : BlockKind} (h : b.startBlock kind = .ok c) : Keeps b c := by
  obtain ⟨stack, ds⟩ := b
  cases stack with
  | nil => cases h
  | cons block outer => cases h; exact ⟨held_empty kind _, rfl⟩

theorem keeps_of_endBlock (h : b.endBlock = .ok c) : Keeps b c := by
  unfold endBlock at h
  split at h
  · cases h
    rw [OpenBlock.push_eq_append]
    exact ⟨held_close _ _ _, rfl⟩
  · cases h

theorem keeps_of_mergeWithParent (h : b.mergeWithParent = .ok c) : Keeps b c := by
  unfold mergeWithParent at h
  split at h
  · cases h
    refine ⟨?_, rfl⟩
    rw [held, held, held, Array.toList_append, Node.spansOf_append, List.append_assoc]
  · cases h

theorem keeps_of_modifyCurrent {f : OpenBlock → OpenBlock} (h : b.modifyCurrent f = .ok c)
    (hf : ∀ block, (f block).children = block.children) : Keeps b c := by
  unfold modifyCurrent at h
  split at h
  · cases h
  · cases h
    refine ⟨?_, rfl⟩
    rw [held, held, hf]

theorem keeps_of_setName {name : String} (h : b.setName name = .ok c) : Keeps b c :=
  keeps_of_modifyCurrent h fun _ => rfl

theorem keeps_of_setKind {kind : BlockKind} (h : b.setKind kind = .ok c) : Keeps b c :=
  keeps_of_modifyCurrent h fun _ => rfl

/-- Closing blocks keeps everything, also where it ends with a refusal. -/
theorem keeps_release (b : Builder) (limit : Nat) : Keeps b (b.release limit).1 := by
  fun_induction release b limit with
  | case1 b hdeep c hend ih => exact (keeps_of_endBlock hend).trans ih
  | case2 b hdeep fault hend => exact .refl b
  | case3 b hdeep => exact .refl b

/-- A request that keeps everything where it is granted does so in any case. -/
theorem keeps_settle {outcome : Except Fault Builder} (h : ∀ c, outcome = .ok c → Keeps b c) :
    Keeps b (settle b () outcome).1 := by
  cases outcome with
  | ok c => exact h c rfl
  | error fault => exact .refl b

end Keeps

/-- What a builder holds grows by what was taken and what was reported. -/
structure Gains (b c : Builder) (spans : List Span) (ds : List Diagnostic) : Prop where
  held : held c.stack = held b.stack ++ spans
  diagnostics : c.diagnostics.toList = b.diagnostics.toList ++ ds

theorem Keeps.gains {b c : Builder} (h : Keeps b c) : Gains b c [] [] :=
  ⟨by rw [h.held, List.append_nil], by rw [h.diagnostics, List.append_nil]⟩

theorem Gains.trans {b c d : Builder} {spans spans' : List Span} {ds ds' : List Diagnostic}
    (h : Gains b c spans ds) (h' : Gains c d spans' ds') :
    Gains b d (spans ++ spans') (ds ++ ds') :=
  ⟨by rw [h'.held, h.held, List.append_assoc],
    by rw [h'.diagnostics, h.diagnostics, List.append_assoc]⟩

theorem gains_pushSpan (b : Builder) (span : Span) :
    Gains b (b.answer (.pushSpan span)).1
      ((Request.pushSpan span).taken? (b.answer (.pushSpan span)).2).toList [] := by
  obtain ⟨stack, ds⟩ := b
  cases stack with
  | nil => exact (Keeps.refl _).gains
  | cons block outer =>
    refine ⟨?_, (List.append_nil _).symm⟩
    change held (block.push (.span span) :: outer) = held (block :: outer) ++ [span]
    rw [OpenBlock.push_eq_append, held_append, Node.spansOf_span, Node.spansOf_nil]

/-- What one request adds. -/
theorem gains_answer (b : Builder) (request : Request) :
    Gains b (b.answer request).1 (request.taken? (b.answer request).2).toList
      request.reported?.toList := by
  cases request with
  | openRoot => exact (keeps_settle fun _ => keeps_of_openRoot).gains
  | startBlock kind => exact (keeps_settle fun _ => keeps_of_startBlock).gains
  | endBlock => exact (keeps_settle fun _ => keeps_of_endBlock).gains
  | release limit => exact (keeps_release b limit).gains
  | mergeWithParent => exact (keeps_settle fun _ => keeps_of_mergeWithParent).gains
  | pushSpan span => exact gains_pushSpan b span
  | setName name => exact (keeps_settle fun _ => keeps_of_setName).gains
  | setKind kind => exact (keeps_settle fun _ => keeps_of_setKind).gains
  | report d => exact ⟨(List.append_nil _).symm, Array.toList_push⟩

theorem takenSpans_cons (request : Request) (requests : List Request)
    (result : Except Fault Unit) (results : List (Except Fault Unit)) :
    takenSpans (request :: requests) (result :: results) =
      (request.taken? result).toList ++ takenSpans requests results := by
  cases request <;> rcases result with fault | ⟨⟩ <;> rfl

/-- What any requests add. -/
theorem gains_answerAll (b : Builder) (requests : List Request) :
    Gains b (answerAll answer b requests).1 (takenSpans requests (answerAll answer b requests).2)
      (requests.filterMap Request.reported?) := by
  induction requests generalizing b with
  | nil => exact (Keeps.refl b).gains
  | cons request requests ih =>
    have hreported : (request :: requests).filterMap Request.reported? =
        request.reported?.toList ++ requests.filterMap Request.reported? := by
      cases request <;> rfl
    rw [hreported]
    change Gains b _ (takenSpans (request :: requests) (_ :: _)) _
    rw [takenSpans_cons]
    exact (gains_answer b request).trans (ih _)

/-- The spans of open blocks, read from the root. -/
theorem held_eq_flatMap (stack : List OpenBlock) :
    held stack = stack.reverse.flatMap fun block => block.toBlock.descendantSpans := by
  induction stack with
  | nil => rfl
  | cons block outer ih =>
    rw [held, ih, List.reverse_cons, List.flatMap_append, List.flatMap_singleton,
      Block.descendantSpans_eq]
    rfl

/-- Closing blocks reports behind what was reported before. -/
theorem diagnostics_prefix_closeAll (report : Bool) (block : OpenBlock) (outer : List OpenBlock)
    (ds : Array Diagnostic) :
    ds.toList <+: (closeAll report block outer ds).diagnostics := by
  induction outer generalizing block ds with
  | nil => exact List.prefix_refl _
  | cons parent outer ih =>
    rw [closeAll]
    refine .trans ?_ (ih _ _)
    cases report with
    | false => exact List.prefix_refl _
    | true =>
      rw [if_pos rfl, Array.toList_appendList]
      exact List.prefix_append _ _

/-- After any requests the open blocks hold the spans that were taken, and so
does the tree that is handed out. -/
theorem answerAll_holds (requests : List Request) :
    ∃ b results, answerAll answer empty requests = (b, results) ∧
      b.stack.reverse.flatMap (fun block => block.toBlock.descendantSpans) =
        takenSpans requests results ∧
      b.diagnostics.toList = requests.filterMap Request.reported? ∧
      (b.isInitialized = true → ∀ reportUnclosed, ∃ p, b.finish reportUnclosed = .ok p ∧
        p.root.descendantSpans = takenSpans requests results ∧
        requests.filterMap Request.reported? <+: p.diagnostics) := by
  obtain ⟨hheld, hdiagnostics⟩ := gains_answerAll empty requests
  obtain ⟨⟨⟨stack, ds⟩, results⟩, hanswer⟩ : ∃ outcome, answerAll answer empty requests = outcome :=
    ⟨_, rfl⟩
  rw [hanswer] at hheld hdiagnostics
  change held stack = takenSpans requests results at hheld
  change ds.toList = requests.filterMap Request.reported? at hdiagnostics
  refine ⟨⟨stack, ds⟩, results, hanswer, (held_eq_flatMap stack).symm.trans hheld,
    hdiagnostics, ?_⟩
  intro hinitialized reportUnclosed
  cases stack with
  | nil => cases hinitialized
  | cons block outer =>
    refine ⟨_, rfl, ?_, ?_⟩
    · rw [Block.descendantSpans_eq, held_closeAll, hheld]
    · rw [← hdiagnostics]
      exact diagnostics_prefix_closeAll reportUnclosed block outer ds

/-- A span before the root is open, a block merged into its parent, a refusal to
close the root, and a block that is left open. -/
def mixedRequests : List Request :=
  [.pushSpan ⟨.text, "lost", ⟨0, 4⟩⟩, .openRoot, .pushSpan ⟨.text, "a", ⟨0, 1⟩⟩,
    .startBlock .tag, .pushSpan ⟨.text, "b", ⟨1, 2⟩⟩, .startBlock .expression,
    .pushSpan ⟨.text, "c", ⟨2, 3⟩⟩, .mergeWithParent, .report ⟨.unclosedTag, ⟨2, 3⟩⟩,
    .release 0, .startBlock .tag, .setName "d", .openRoot, .pushSpan ⟨.text, "d", ⟨3, 4⟩⟩]

/-- What was taken is in the tree, also where a block is left open. -/
theorem answerAll_holds_mixed :
    ∃ b results, answerAll answer empty mixedRequests = (b, results) ∧ b.isInitialized = true ∧
      takenSpans mixedRequests results =
        [⟨.text, "a", ⟨0, 1⟩⟩, ⟨.text, "b", ⟨1, 2⟩⟩, ⟨.text, "c", ⟨2, 3⟩⟩, ⟨.text, "d", ⟨3, 4⟩⟩] ∧
      b.diagnostics.toList = [⟨.unclosedTag, ⟨2, 3⟩⟩] ∧
      ∃ p, b.finish true = .ok p ∧ p.root.descendantSpans = takenSpans mixedRequests results ∧
        [⟨.unclosedTag, ⟨2, 3⟩⟩] <+: p.diagnostics := by
  obtain ⟨b, results, hanswer, -, hdiagnostics, hfinish⟩ := answerAll_holds mixedRequests
  have hinitialized : (answerAll answer empty mixedRequests).1.isInitialized = true := by
    decide +kernel
  have htaken : takenSpans mixedRequests (answerAll answer empty mixedRequests).2 =
      [⟨.text, "a", ⟨0, 1⟩⟩, ⟨.text, "b", ⟨1, 2⟩⟩, ⟨.text, "c", ⟨2, 3⟩⟩, ⟨.text, "d", ⟨3, 4⟩⟩] := by
    decide +kernel
  rw [hanswer] at hinitialized htaken
  exact ⟨b, results, hanswer, hinitialized, htaken, hdiagnostics, hfinish hinitialized true⟩

end Builder

end BraceTemplate

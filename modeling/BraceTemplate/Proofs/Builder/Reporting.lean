import BraceTemplate.Proofs.Builder.Placing

/-!
# What a builder reports of tags

A builder reports what the tags report that it places, in their order. What it
reports itself is about blocks.
-/

namespace BraceTemplate

/-- The diagnostics about single tags. -/
def Diagnostic.ofTags (ds : List Diagnostic) : List Diagnostic :=
  ds.filter (·.problem.isTagLevel)

def Piece.problems : Piece → List Diagnostic
  | text _ => []
  | tag t => t.problems

namespace Diagnostic

theorem ofTags_append (ds more : List Diagnostic) :
    ofTags (ds ++ more) = ofTags ds ++ ofTags more :=
  List.filter_append ds more

theorem ofTags_of_all {ds : List Diagnostic} (h : ∀ d ∈ ds, d.problem.isTagLevel = true) :
    ofTags ds = ds :=
  List.filter_eq_self.2 h

end Diagnostic

theorem Tag.ofTags_closingProblems (tag : Tag) (block : OpenBlock) :
    Diagnostic.ofTags (tag.closingProblems block) = [] := by
  rw [closingProblems]
  split <;> rfl

namespace Builder

open Diagnostic

variable {options : Options}

theorem ofTags_unclosed (block : OpenBlock) : ofTags (unclosed block) = [] := by
  rw [unclosed]
  split <;> rfl

theorem Placed.ofTags_diagnostics {b c : Builder} {piece : Piece} (h : Placed options b piece c)
    (hpiece : ∀ d ∈ piece.problems, d.problem.isTagLevel = true) :
    ofTags c.diagnostics.toList = ofTags b.diagnostics.toList ++ piece.problems := by
  have hself := ofTags_of_all hpiece
  cases h with
  | text => exact (List.append_nil _).symm
  | inline block outer ds tag | expression block outer ds tag | continued block outer ds tag
  | opened block outer ds tag =>
    change ofTags tag.problems = tag.problems at hself
    rw [Array.toList_appendList, ofTags_append, hself]
    rfl
  | stray root ds tag =>
    change ofTags tag.problems = tag.problems at hself
    have hstray : ofTags [tag.strayProblem] = [] := rfl
    rw [Array.toList_appendList, Array.toList_appendList, ofTags_append, ofTags_append, hself,
      hstray, List.append_nil]
    rfl
  | closed block parent outer ds tag =>
    change ofTags tag.problems = tag.problems at hself
    rw [Array.toList_appendList, Array.toList_appendList, ofTags_append, ofTags_append, hself,
      Tag.ofTags_closingProblems, List.append_nil]
    rfl

theorem PlacedAll.ofTags_diagnostics {b c : Builder} {pieces : List Piece}
    (h : PlacedAll options b pieces c)
    (hpieces : ∀ piece ∈ pieces, ∀ d ∈ piece.problems, d.problem.isTagLevel = true) :
    ofTags c.diagnostics.toList = ofTags b.diagnostics.toList ++ pieces.flatMap Piece.problems := by
  induction h with
  | nil b => rw [List.flatMap_nil, List.append_nil]
  | cons hfirst _ ih =>
    rw [ih fun piece hpiece => hpieces piece (List.mem_cons_of_mem _ hpiece),
      hfirst.ofTags_diagnostics (hpieces _ List.mem_cons_self), List.flatMap_cons,
      List.append_assoc]

theorem ofTags_closeAll (report : Bool) (block : OpenBlock) (outer : List OpenBlock)
    (ds : Array Diagnostic) :
    ofTags (closeAll report block outer ds).diagnostics = ofTags ds.toList := by
  induction outer generalizing block ds with
  | nil => rfl
  | cons parent outer ih =>
    rw [closeAll, ih]
    cases report with
    | false => rfl
    | true =>
      rw [if_pos rfl, Array.toList_appendList, ofTags_append, ofTags_unclosed, List.append_nil]

end Builder

theorem Piece.flatMap_problems (pieces : List Piece) :
    pieces.flatMap problems = (pieces.filterMap tag?).flatMap Tag.problems := by
  induction pieces with
  | nil => rfl
  | cons piece pieces ih =>
    cases piece with
    | text span => exact ih
    | tag t =>
      rw [List.flatMap_cons, ih]
      rfl

end BraceTemplate

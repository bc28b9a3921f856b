import BraceTemplate.Proofs.Nesting.Tracking
import BraceTemplate.Proofs.Parse.Diagnosed
import BraceTemplate.Proofs.Builder.Held

/-!
# Parses under different options

Options are asked where pieces are placed, and nowhere in front of that. So two
parses of one source cut it into the same spans and tell the same of its tags,
however differently the blocks nest. Options that name the same branch blocks
give the same tree, and what is told of blocks that are never closed comes last
or not at all.
-/

namespace BraceTemplate

/-- Options under which the same names are those of branch blocks. -/
def Options.Agree (options options' : Options) : Prop :=
  ∀ name, options.isBranchBlock name = options'.isBranchBlock name

namespace Builder

variable {options options' : Options}

theorem continues_congr (h : options.Agree options') (parent : String) (tag : Tag) :
    continues options parent tag = continues options' parent tag := by
  rw [continues, continues, h parent]

theorem Placed.congr {b c : Builder} {piece : Piece} (hplaced : Placed options b piece c)
    (h : options.Agree options') : Placed options' b piece c := by
  cases hplaced with
  | text block outer ds span => exact .text block outer ds span
  | inline block outer ds tag hkind =>
    rw [continues_congr h] at hkind
    exact .inline block outer ds tag hkind
  | expression block outer ds tag hkind hnew =>
    rw [continues_congr h] at hnew
    rw [Tag.expressionUnder, h block.name]
    exact .expression block outer ds tag hkind hnew
  | continued block outer ds tag hkind hold =>
    rw [continues_congr h] at hold
    exact .continued block outer ds tag hkind hold
  | opened block outer ds tag hkind hnew =>
    rw [continues_congr h] at hnew
    exact .opened block outer ds tag hkind hnew
  | stray root ds tag hkind => exact .stray root ds tag hkind
  | closed block parent outer ds tag hkind => exact .closed block parent outer ds tag hkind

theorem PlacedAll.congr {b c : Builder} {pieces : List Piece}
    (hplaced : PlacedAll options b pieces c) (h : options.Agree options') :
    PlacedAll options' b pieces c := by
  induction hplaced with
  | nil b => exact .nil b
  | cons hfirst _ ih => exact .cons (hfirst.congr h) ih

/-- Whether open blocks are reported does not show in the tree. -/
theorem root_closeAll_congr (report report' : Bool) (block : OpenBlock) (outer : List OpenBlock)
    (ds ds' : Array Diagnostic) :
    (closeAll report block outer ds).root = (closeAll report' block outer ds').root := by
  induction outer generalizing block ds ds' with
  | nil => rfl
  | cons parent outer ih => exact ih _ _ _

end Builder

/-- Spans and what is told of tags do not depend on options. Nothing but reports
of blocks that are never closed depends on whether these are asked for. -/
theorem parse_options (source : String) (options options' : Options) :
    ∃ p q, parse source options = .ok p ∧ parse source options' = .ok q ∧
      p.root.descendantSpans = q.root.descendantSpans ∧
      Diagnostic.ofTags p.diagnostics = Diagnostic.ofTags q.diagnostics ∧
      (options.Agree options' → p.root = q.root ∧ ∃ front unclosed,
        (∀ d ∈ front, d.problem.isUnclosedBlock = false) ∧
        (∀ d ∈ unclosed, d.problem.isUnclosedBlock = true) ∧
        p.diagnostics = front ++ (if options.reportUnclosed then unclosed else []) ∧
        q.diagnostics = front ++ (if options'.reportUnclosed then unclosed else [])) := by
  obtain ⟨pieces, rest, hread, hcut, -⟩ := Piece.readAll_ofSource source
  obtain ⟨block, outer, ds, -, hplaced, hparse⟩ := parse_of_readAll hread options
  obtain ⟨block', outer', ds', hadd', hplaced', hparse'⟩ := parse_of_readAll hread options'
  refine ⟨_, _, hparse, hparse', ?_, ?_, ?_⟩
  · rw [hplaced.descendantSpans, hplaced'.descendantSpans]
  · obtain ⟨p, hp, htags⟩ := parse_ofTags source options
    obtain ⟨q, hq, htags'⟩ := parse_ofTags source options'
    cases hparse.symm.trans hp
    cases hparse'.symm.trans hq
    rw [htags, htags']
  · intro hagree
    -- the two builders are one
    cases (hplaced.congr hagree).addPieces.symm.trans hadd'
    have hfollows := hplaced.follows (fun _ => hcut.sound) .start
    refine ⟨Builder.root_closeAll_congr _ _ _ _ _ _, ds.toList, _, hfollows.quiet, ?_,
      (Builder.closeAll_tracks _ ds hfollows.stack).2,
      (Builder.closeAll_tracks _ ds hfollows.stack).2⟩
    intro d hd
    obtain ⟨e, -, rfl⟩ := List.mem_map.1 hd
    rfl

/-- An open block with a branch and a closing tag that fits neither. -/
def unbranched : String :=
  "\x7b\x7b#if a\x7d\x7d\x7b\x7b#elseif b\x7d\x7dc\x7b\x7b#d\x7d\x7d\x7b\x7b#e\x7d\x7d" ++
    "\x7b\x7b/f\x7d\x7d"

/-- A name may be given twice, and reports may be left out. -/
theorem parse_options_unclosed :
    Options.Agree {} ⟨["if", "if"], false⟩ ∧
      ∃ p q, parse unbranched {} = .ok p ∧ parse unbranched ⟨["if", "if"], false⟩ = .ok q ∧
        p.root = q.root ∧
        q.diagnostics = [⟨.unbalancedTag "e" "f" (some ⟨29, 35⟩), ⟨38, 39⟩⟩] ∧
        p.diagnostics = q.diagnostics ++
          [⟨.unclosedBlock "d", ⟨23, 29⟩⟩, ⟨.unclosedBlock "if", ⟨0, 9⟩⟩] := by
  have hagree : Options.Agree {} ⟨["if", "if"], false⟩ := by
    intro name
    simp [Options.isBranchBlock]
  have hfound : (parse unbranched {}).toOption.map Parse.diagnostics =
      some [⟨.unbalancedTag "e" "f" (some ⟨29, 35⟩), ⟨38, 39⟩⟩, ⟨.unclosedBlock "d", ⟨23, 29⟩⟩,
        ⟨.unclosedBlock "if", ⟨0, 9⟩⟩] := by
    decide +kernel
  have hquiet : (parse unbranched ⟨["if", "if"], false⟩).toOption.map Parse.diagnostics =
      some [⟨.unbalancedTag "e" "f" (some ⟨29, 35⟩), ⟨38, 39⟩⟩] := by
    decide +kernel
  obtain ⟨p, q, hp, hq, -, -, hboth⟩ := parse_options unbranched {} ⟨["if", "if"], false⟩
  obtain ⟨hroot, -⟩ := hboth hagree
  rw [hp] at hfound
  rw [hq] at hquiet
  refine ⟨hagree, p, q, hp, hq, hroot, Option.some.inj hquiet, ?_⟩
  exact (Option.some.inj hfound).trans (congrArg (· ++ _) (Option.some.inj hquiet).symm)

end BraceTemplate

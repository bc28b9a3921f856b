import BraceTemplate.Proofs.Builder.Telling
import BraceTemplate.Proofs.Nesting.Distinct
import BraceTemplate.Proofs.Parse.Reported

/-!
# Where and in which order a parse reports

All places that diagnostics name can be read in the source. A closing tag that
does not fit is named by what is written in it, and by the tag that opened the
block which it ends. Diagnostics follow the source up to its end, and from there
the blocks that are left open are told of from the innermost one out.
-/

namespace BraceTemplate

/-- What a diagnostic names stands in the source and in its tree. -/
structure Diagnostic.Grounded (source : String) (root : Block) (d : Diagnostic) : Prop where
  location : d.location.Readable source
  openedAt : ∀ l ∈ d.problem.openedAt?, l.Readable source
  told : d.Told source root.descendantBlocks

namespace Pairing

/-- Open blocks stand in the stack against the order of their tags. -/
theorem stack_foldl_sublist (options : Options) (m : Pairing) (tags : List Heading) :
    (tags.foldl (step options) m).stack.Sublist ((tags.map Heading.entry).reverse ++ m.stack) := by
  induction tags generalizing m with
  | nil => exact List.Sublist.refl _
  | cons tag tags ih =>
    have hstep : (m.step options tag).stack.Sublist (tag.entry :: m.stack) := by
      have hkeep := List.sublist_cons_self tag.entry m.stack
      rw [step]
      split
      · split
        · exact hkeep
        · exact List.Sublist.refl _
      · rw [pop]
        split
        · exact hkeep
        · rename_i e outer hstack
          rw [hstack] at hkeep ⊢
          exact (List.sublist_cons_self e outer).trans hkeep
      · exact hkeep
      · exact hkeep
    rw [List.foldl_cons, List.map_cons, List.reverse_cons, List.append_assoc]
    exact (ih _).trans (List.Sublist.append (List.Sublist.refl _) hstep)

end Pairing

/-- The blocks that a source leaves open start one in front of the other, from
the innermost one out. -/
theorem stack_pairwise (source : String) (options : Options) :
    (pairing source options).stack.Pairwise fun a b => b.markup.start < a.markup.start := by
  have hsublist := Pairing.stack_foldl_sublist options .empty (headings (symbols source))
  have hsorted : (((headings (symbols source)).map Heading.entry).reverse ++
      Pairing.empty.stack).Pairwise fun a b => b.markup.start < a.markup.start := by
    change (_ ++ []).Pairwise _
    rw [List.append_nil, List.pairwise_reverse, List.pairwise_map]
    exact headings_pairwise (symbols_follow source)
  exact hsorted.sublist hsublist

/-- Diagnostics are well placed and come in order, whatever is wrong with a
source. -/
theorem parse_orders (source : String) (options : Options) :
    ∃ p front back, parse source options = .ok p ∧
      (∀ d ∈ p.diagnostics, d.Grounded source p.root) ∧ p.diagnostics = front ++ back ∧
      (∀ d ∈ front, d.problem.isUnclosedBlock = false) ∧
      front.Pairwise (fun d e => d.location.start ≤ e.location.start) ∧
      (∀ d ∈ back, d.problem.isUnclosedBlock = true) ∧
      back.Pairwise (fun d e => e.location.start < d.location.start) := by
  obtain ⟨pieces, rest, hread, hcut, htags⟩ := Piece.readAll_ofSource source
  obtain ⟨block, outer, ds, -, hplaced, hparse⟩ := parse_of_readAll hread options
  obtain ⟨p, hp, hlocated⟩ := parse_located source options
  cases hp.symm.trans hparse
  have hpieces : ∀ tag, .tag tag ∈ pieces → Builder.Tellable source tag := by
    intro tag hmem
    obtain ⟨o, ho, hreadAt⟩ :=
      Tag.exists_readAt_of_mem htags (List.mem_filterMap.2 ⟨.tag tag, hmem, rfl⟩)
    obtain ⟨hformed, hproblems⟩ := hcut.formed_ofSource hmem
    exact ⟨hformed, hreadAt.written ho, hproblems⟩
  have hshaped : Builder.Shaped options [.empty .text] :=
    ⟨fun hne => absurd rfl hne, Node.allBlocks_spans [], trivial⟩
  have htells : Builder.Tells source ⟨block :: outer, ds⟩ := hplaced.tells hpieces hshaped nofun
  have hfollows : Follows (pairing source options) ⟨block :: outer, ds⟩ := by
    rw [← hcut.run_eq options]
    exact hplaced.follows (fun _ => hcut.sound) .start
  obtain ⟨-, hdiagnostics⟩ :=
    Builder.closeAll_tracks options.reportUnclosed ds hfollows.stack
  have hback : ∀ d ∈ if options.reportUnclosed then
      (pairing source options).stack.map Entry.unclosed else [],
      d.problem.isUnclosedBlock = true := by
    intro d hd
    split at hd
    · obtain ⟨e, -, rfl⟩ := List.mem_map.1 hd
      rfl
    · cases hd
  refine ⟨_, ds.toList, _, hparse, ?_, hdiagnostics, hfollows.quiet, ?_, hback, ?_⟩
  · intro d hd
    obtain ⟨hlocation, hopenedAt⟩ := Diagnostic.located_iff.1 (hlocated d hd)
    refine ⟨hlocation.readable, fun l hl => (hopenedAt l hl).readable, ?_⟩
    rw [hdiagnostics, List.mem_append] at hd
    rw [Block.descendantBlocks_eq]
    rcases hd with hd | hd
    · exact (htells d hd).mono (Builder.innerBlocks_subset_closeAll _ _ _ _)
    · obtain ⟨problem, location⟩ := d
      have hunclosed := hback _ hd
      cases problem <;> trivial
  · have hsublist := hplaced.starts_sublist
    have hcomments : CommentsClose (symbols source) :=
      (Scanner.ofSource source).commentsClose_symbols
    have hsorted := (Tag.points_pairwise htags hcomments (symbols_follow source)).1.sublist hsublist
    exact List.pairwise_map.1 hsorted
  · split
    · rw [List.pairwise_map]
      exact stack_pairwise source options
    · exact .nil

end BraceTemplate

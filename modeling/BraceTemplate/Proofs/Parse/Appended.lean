import BraceTemplate.Proofs.Builder.Moving
import BraceTemplate.Proofs.Parse.Diagnosed
import BraceTemplate.Proofs.Pieces.Joined

/-!
# Parses of sources put together

A source that parses without diagnostics leaves nothing open. Where it ends with
a closing delimiter, what is behind it is parsed as if it stood alone. This needs
the comments of the source to be finished: one that is not would go on to a later
end behind the source.
-/

namespace BraceTemplate

/-- Where no tag is reported, all are closed by the delimiters that fit them. -/
theorem closed_of_parse {source : String} {options : Options} {p : Parse}
    (hp : parse source options = .ok p) (h : Diagnostic.ofTags p.diagnostics = []) :
    ∀ o ∈ openings (symbols source), o.Closed := by
  obtain ⟨p', hp', htags⟩ := parse_ofTags source options
  cases hp.symm.trans hp'
  rw [h] at htags
  intro o ho
  exact Opening.closed_of_problems (List.flatMap_eq_nil_iff.1 htags.symm o ho)

/-- The root that is handed out is the one that was opened. -/
theorem Builder.root_closeAll {block : OpenBlock} {outer : List OpenBlock} {es : List Entry}
    (report : Bool) (ds : Array Diagnostic) (h : Tracks (block :: outer) es) :
    (closeAll report block outer ds).root.kind = .text ∧
      (closeAll report block outer ds).root.name = "" := by
  induction outer generalizing block es ds with
  | nil =>
    cases h with
    | root hkind hname => exact ⟨hkind, hname⟩
    | block _ _ h => cases h
  | cons parent outer ih =>
    obtain ⟨e, es, rfl⟩ := h.exists_cons
    rw [closeAll, OpenBlock.push_eq_append]
    exact ih _ h.close

/-- Behind a source whose tags are closed, parsing goes on where the source leaves
off. -/
theorem parse_goes_on {front back : String} (options : Options)
    (hclosed : ∀ o ∈ openings (symbols front), o.Closed)
    (hcomments : ∀ x ∈ symbols front, x.kind = .comment → x.Finished)
    (htext : ∀ before x, symbols front = before ++ [x] → x.kind = .text →
      (Scanner.behind front before.length).Settled back.toList)
    {second : List Piece} {rest : SymbolStream}
    (hsecond : Piece.readAll (.ofSource back) = .ok (second, rest)) :
    ∃ m block outer ds, Follows m ⟨block :: outer, ds⟩ ∧
      parse front options = .ok (Builder.closeAll options.reportUnclosed block outer ds) ∧
      ∀ last others found, Builder.PlacedAll options ⟨block :: outer, ds⟩
          (second.map (Piece.move (Text.byteLength front.toList))) ⟨last :: others, found⟩ →
        parse (front ++ back) options =
          .ok (Builder.closeAll options.reportUnclosed last others found) := by
  obtain ⟨first, _, hfirst, hcut, -⟩ := Piece.readAll_readOff front
  obtain ⟨_, hjoined⟩ := Piece.readAll_append hclosed hcomments htext hfirst hsecond
  obtain ⟨block, outer, ds, hadd, hplaced, hparse⟩ := parse_of_readAll hfirst options
  obtain ⟨last, others, found, hadd', -, hparse'⟩ := parse_of_readAll hjoined options
  refine ⟨_, block, outer, ds, hplaced.follows (fun _ => hcut.sound) .start, hparse, ?_⟩
  intro last' others' found' hmore
  rw [Builder.addPieces_append hadd, hmore.addPieces] at hadd'
  cases hadd'
  exact hparse'

/-- Behind a source without diagnostics, parsing goes on as at a start. -/
theorem parse_append (front back : String) (options : Options)
    (hreport : options.reportUnclosed = true) {p : Parse} (hp : parse front options = .ok p)
    (hclean : p.diagnostics = [])
    (hlast : ∃ x ∈ (symbols front).getLast?, x.kind.isCloseDelimiter = true)
    (hcomments : ∀ x ∈ symbols front, x.kind = .comment → x.Finished) :
    ∃ q, parse back options = .ok q ∧
      parse (front ++ back) options = .ok
        ⟨⟨.text, "", p.root.children ++
            q.root.children.map (Node.move (Text.byteLength front.toList))⟩,
          q.diagnostics.map (Diagnostic.move (Text.byteLength front.toList))⟩ := by
  have hclosed := closed_of_parse hp (by rw [hclean]; rfl)
  have htext : ∀ before x, symbols front = before ++ [x] → x.kind = .text →
      (Scanner.behind front before.length).Settled back.toList := by
    rintro before x hsymbols hkind
    obtain ⟨y, hy, hclose⟩ := hlast
    rw [hsymbols, List.getLast?_concat] at hy
    cases hy
    rw [hkind] at hclose
    cases hclose
  obtain ⟨second, _, hsecond, hcut, -⟩ := Piece.readAll_readOff back
  obtain ⟨block, outer, ds, -, hplaced, hparse⟩ := parse_of_readAll hsecond options
  have htracks := (hplaced.follows (fun _ => hcut.sound) .start).stack
  obtain ⟨m, root, inner, found, hfollows, hfront, hboth⟩ :=
    parse_goes_on options hclosed hcomments htext hsecond
  cases hp.symm.trans hfront
  -- the first source leaves nothing but the root, as its diagnostics tell
  rw [hreport] at hclean
  obtain ⟨rfl, hopen⟩ := @Builder.of_diagnostics_eq_unclosed m root inner found [] hfollows hclean
  obtain ⟨rfl, hroot⟩ := hopen.eq_root
  have hstart : Builder.behind (Text.byteLength front.toList) root.children.toList
      ⟨[.empty .text], #[]⟩ = ⟨[root], #[]⟩ := by
    rw [hroot]
    simp [Builder.behind, Builder.behindAll, Builder.inFront, OpenBlock.behind, OpenBlock.empty]
  have hmoved := hplaced.behind (Text.byteLength front.toList) root.children.toList
  rw [hstart] at hmoved
  have hclose := Builder.closeAll_behind (Text.byteLength front.toList) root.children.toList
    options.reportUnclosed ds htracks
  obtain ⟨hkind, hname⟩ := Builder.root_closeAll options.reportUnclosed ds htracks
  refine ⟨_, hparse, (hboth _ _ _ hmoved).trans ?_⟩
  rw [hclose, Parse.behind, hkind, hname]
  rfl

/-- A block with a comment: `{{#a}}{{!-- x --}}{{/a}}`. -/
def commented : String :=
  "\x7b\x7b#a\x7d\x7d" ++ "\x7b\x7b!-- x --\x7d\x7d" ++ "\x7b\x7b/a\x7d\x7d"

/-- Behind a block with a comment stands one that is never closed. -/
theorem parse_append_unclosed :
    ∃ p q, parse commented {} = .ok p ∧ p.diagnostics = [] ∧
      parse "é\x7b\x7b#b\x7d\x7d" {} = .ok q ∧ q.diagnostics = [⟨.unclosedBlock "b", ⟨2, 8⟩⟩] ∧
      parse (commented ++ "é\x7b\x7b#b\x7d\x7d") {} =
        .ok ⟨⟨.text, "", p.root.children ++ q.root.children.map (Node.move 24)⟩,
          [⟨.unclosedBlock "b", ⟨26, 32⟩⟩]⟩ := by
  have hclean : (parse commented {}).toOption.map Parse.diagnostics = some [] := by
    decide +kernel
  have hfound : (parse "é\x7b\x7b#b\x7d\x7d" {}).toOption.map Parse.diagnostics =
      some [⟨.unclosedBlock "b", ⟨2, 8⟩⟩] := by
    decide +kernel
  have hlast : (symbols commented).getLast?.any (·.kind.isCloseDelimiter) = true := by
    decide +kernel
  have hcomments : ∀ x ∈ symbols commented, x.kind = .comment → x.Finished := by
    decide +kernel
  obtain ⟨p, hp, -⟩ := parse_ofTags commented {}
  rw [hp] at hclean
  obtain ⟨q, hq, hjoined⟩ := parse_append commented "é\x7b\x7b#b\x7d\x7d" {} rfl hp
    (Option.some.inj hclean) ((Option.any_eq_true _ _).1 hlast) hcomments
  rw [hq] at hfound
  have hd : q.diagnostics = [⟨.unclosedBlock "b", ⟨2, 8⟩⟩] := Option.some.inj hfound
  have hlength : Text.byteLength commented.toList = 24 := by
    decide
  rw [hd, hlength] at hjoined
  exact ⟨p, q, hp, Option.some.inj hclean, hq, hd, hjoined⟩

end BraceTemplate

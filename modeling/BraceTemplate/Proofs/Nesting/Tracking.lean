import BraceTemplate.Proofs.Builder.Held
import BraceTemplate.Proofs.Nesting.Pairing

/-!
# Builders and pairing

A builder does what the pairing of tags does: its open blocks are the entries of
the stack, and its tree so far has a `tag` block for each entry that was ever
pushed, inside those that were open then. Blocks for the markup of single tags
are never left open. So a parse tells of closing tags what the pairing tells, and
last, if at all, what the pairing leaves open.
-/

namespace BraceTemplate

variable {options : Options}

namespace Problem

theorem of_isTagLevel {p : Problem} (h : p.isTagLevel = true) :
    p.isPairing = false ∧ p.isUnclosedBlock = false := by
  cases p with
  | unbalancedTag | unexpectedCloseTag | unclosedBlock => cases h
  | unclosedTag | mismatchedDelimiter | unexpectedSymbol => exact ⟨rfl, rfl⟩

end Problem

namespace Tag

theorem markup?_eq_some {tag : Tag} (h : tag.spans ≠ []) :
    tag.markup? = some tag.heading.markup := by
  rw [heading, markup?]
  cases hspans : tag.spans with
  | nil => exact absurd hspans h
  | cons span spans => rfl

end Tag

namespace Block

theorem name_of_opening? {b : Block} {e : Entry} (h : b.opening? = some e) : b.name = e.name := by
  obtain ⟨l, -, rfl⟩ := Option.map_eq_some_iff.1 h
  rfl

theorem opening?_append {kind : BlockKind} {name : String} {children : List Node} {e : Entry}
    (h : (Block.mk kind name children).opening? = some e) (nodes : List Node) :
    (Block.mk kind name (children ++ nodes)).opening? = some e := by
  cases children with
  | nil => cases h
  | cons first rest => exact h

end Block

namespace OpenBlock

theorem openedAt?_of_opening? {b : OpenBlock} {e : Entry} (h : b.toBlock.opening? = some e) :
    b.openedAt? = some e.markup := by
  obtain ⟨l, hl, rfl⟩ := Option.map_eq_some_iff.1 h
  rw [openedAt?, ← Array.getElem?_toList, ← List.head?_eq_getElem?]
  exact hl

end OpenBlock

namespace Tag

/-- What is told of a closing tag is what the pairing tells. -/
theorem pairing_closingProblems (tag : Tag) {block : OpenBlock} {e : Entry}
    (h : block.toBlock.opening? = some e) :
    ((tag.closingProblems block).map Diagnostic.problem).filter Problem.isPairing =
      if tag.name = e.name then [] else [.unbalancedTag e.name tag.name (some e.markup)] := by
  have hname : block.name = e.name := Block.name_of_opening? h
  rw [closingProblems, OpenBlock.openedAt?_of_opening? h, hname]
  by_cases heq : tag.name = e.name
  · simp [heq]
  · simp [heq, Problem.isPairing]

theorem quiet_closingProblems {tag : Tag} {block : OpenBlock} {d : Diagnostic}
    (hd : d ∈ tag.closingProblems block) : d.problem.isUnclosedBlock = false := by
  rw [closingProblems] at hd
  split at hd
  · rw [List.mem_singleton.1 hd]
    rfl
  · cases hd

end Tag

/-- Open blocks that stand for the entries of a stack, inside a root that is
not named. -/
inductive Tracks : List OpenBlock → List Entry → Prop
  | root {root : OpenBlock} (hkind : root.kind = .text) (hname : root.name = "") :
      Tracks [root] []
  | block {block : OpenBlock} {outer : List OpenBlock} {e : Entry} {es : List Entry}
      (hkind : block.kind = .tag) (hentry : block.toBlock.opening? = some e)
      (h : Tracks outer es) : Tracks (block :: outer) (e :: es)

namespace Tracks

variable {block parent : OpenBlock} {outer : List OpenBlock} {e : Entry} {es : List Entry}

theorem append (h : Tracks (block :: outer) es) (nodes : List Node) :
    Tracks (block.append nodes :: outer) es := by
  cases h with
  | root hkind hname => exact .root hkind hname
  | block hkind hentry h =>
    refine .block hkind ?_ h
    rw [OpenBlock.toBlock_append]
    exact Block.opening?_append hentry nodes

/-- A block that joins its parent leaves the other entries open. -/
theorem close (h : Tracks (block :: parent :: outer) (e :: es)) :
    Tracks (parent.append [block.toNode] :: outer) es := by
  cases h with
  | block _ _ h => exact h.append _

theorem opening?_eq (h : Tracks (block :: parent :: outer) (e :: es)) :
    block.toBlock.opening? = some e := by
  cases h with
  | block _ hentry _ => exact hentry

/-- There is an entry for every block but the root. -/
theorem exists_cons (h : Tracks (block :: parent :: outer) es) : ∃ e inner, es = e :: inner := by
  cases h with
  | block _ _ _ => exact ⟨_, _, rfl⟩

/-- Where no entry is open, nothing but the root is. -/
theorem eq_root (h : Tracks (block :: outer) []) :
    outer = [] ∧ block = ⟨.text, "", block.children⟩ := by
  cases h with
  | root hkind hname =>
    constructor
    · rfl
    · rw [← hkind, ← hname]

theorem eq_nil (h : Tracks [block] es) : es = [] := by
  cases h with
  | root _ _ => rfl
  | block _ _ h => cases h

theorem name_eq_topName {m : Pairing} (h : Tracks (block :: outer) m.stack) :
    block.name = m.topName := by
  rw [Pairing.topName]
  generalize m.stack = entries at h
  cases h with
  | root _ hname => exact hname
  | block _ hentry _ => exact Block.name_of_opening? hentry

/-- Only blocks are told to be unclosed, each where its opening tag is. -/
theorem unclosed_eq (h : Tracks (block :: parent :: outer) (e :: es)) :
    Builder.unclosed block = [e.unclosed] := by
  cases h with
  | block hkind hentry _ =>
    rw [Builder.unclosed, if_pos hkind, OpenBlock.openedAt?_of_opening? hentry]
    rw [show block.name = e.name from Block.name_of_opening? hentry]
    rfl

end Tracks

/-- The trails of the `tag` blocks in the tree so far, those of open blocks
included. -/
def trailsIn : List OpenBlock → List Entry → List (List (Option Entry))
  | [], _ => []
  | block :: _, [] => Node.tagTrails [] block.children.toList
  | block :: outer, e :: es =>
    trailsIn outer es ++
      (e :: es).map some :: Node.tagTrails ((e :: es).map some) block.children.toList

theorem trailsIn_append (block : OpenBlock) (outer : List OpenBlock) (es : List Entry)
    (nodes : List Node) :
    trailsIn (block.append nodes :: outer) es =
      trailsIn (block :: outer) es ++ Node.tagTrails (es.map some) nodes := by
  cases es with
  | nil => rw [trailsIn, trailsIn, OpenBlock.children_append, Node.tagTrails_append, List.map_nil]
  | cons e es =>
    rw [trailsIn, trailsIn, OpenBlock.children_append, Node.tagTrails_append,
      List.append_assoc, List.cons_append]

/-- Trails do not change when a block joins its parent. -/
theorem Tracks.trailsIn_close {block parent : OpenBlock} {outer : List OpenBlock} {e : Entry}
    {es : List Entry} (h : Tracks (block :: parent :: outer) (e :: es)) :
    trailsIn (parent.append [block.toNode] :: outer) es =
      trailsIn (block :: parent :: outer) (e :: es) := by
  cases h with
  | block hkind hentry _ =>
    have hentry' : (Block.mk .tag block.name block.children.toList).opening? = some e := by
      rw [← hkind]
      exact hentry
    rw [trailsIn_append, OpenBlock.toNode_eq, hkind, Node.tagTrails_tag, hentry', trailsIn]
    rfl

theorem tagTrails_element (tag : Tag) (around : List (Option Entry)) :
    Node.tagTrails around [tag.element] = [] :=
  Node.tagTrails_markup around (by simp) "" tag.spans

/-- A builder that has done what the pairing of tags did. -/
structure Follows (m : Pairing) (b : Builder) : Prop where
  stack : Tracks b.stack m.stack
  opened : trailsIn b.stack m.stack = m.opened.map (·.map some)
  problems : (b.diagnostics.toList.map Diagnostic.problem).filter Problem.isPairing = m.problems
  quiet : ∀ d ∈ b.diagnostics.toList, d.problem.isUnclosedBlock = false

namespace Follows

variable {m : Pairing} {block parent : OpenBlock} {outer : List OpenBlock} {ds : Array Diagnostic}

theorem start : Follows .empty ⟨[.empty .text], #[]⟩ where
  stack := .root rfl rfl
  opened := Node.tagTrails_nil []
  problems := rfl
  quiet _ h := nomatch h

/-- Children without `tag` blocks change nothing. -/
theorem append (h : Follows m ⟨block :: outer, ds⟩) {nodes : List Node}
    (hnodes : ∀ around, Node.tagTrails around nodes = []) :
    Follows m ⟨block.append nodes :: outer, ds⟩ where
  stack := h.stack.append nodes
  opened := by
    rw [trailsIn_append, hnodes, List.append_nil]
    exact h.opened
  problems := h.problems
  quiet := h.quiet

theorem report {stack : List OpenBlock} (h : Follows m ⟨stack, ds⟩) {more : List Diagnostic}
    (hmore : ∀ d ∈ more, d.problem.isUnclosedBlock = false) :
    Follows { m with
        problems := m.problems ++ (more.map Diagnostic.problem).filter Problem.isPairing }
      ⟨stack, ds ++ more⟩ where
  stack := h.stack
  opened := h.opened
  problems := by
    rw [Array.toList_appendList, List.map_append, List.filter_append]
    exact congrArg (· ++ _) h.problems
  quiet d hd := by
    rw [Array.toList_appendList] at hd
    exact (List.mem_append.1 hd).elim (h.quiet d) (hmore d)

/-- What a tag reports of itself is none of the pairing's concern. -/
theorem reportTag {stack : List OpenBlock} (h : Follows m ⟨stack, ds⟩) {more : List Diagnostic}
    (hmore : ∀ d ∈ more, d.problem.isTagLevel = true) : Follows m ⟨stack, ds ++ more⟩ := by
  have hnone : (more.map Diagnostic.problem).filter Problem.isPairing = [] := by
    rw [List.filter_eq_nil_iff]
    intro p hp
    obtain ⟨d, hd, rfl⟩ := List.mem_map.1 hp
    rw [(Problem.of_isTagLevel (hmore d hd)).1]
    exact Bool.false_ne_true
  have hreport := h.report fun d hd => (Problem.of_isTagLevel (hmore d hd)).2
  rwa [hnone, List.append_nil] at hreport

theorem push (h : Follows m ⟨block :: outer, ds⟩) {tag : Tag} (hne : tag.spans ≠ []) :
    Follows (m.push ⟨tag.heading.name, tag.heading.markup⟩)
      ⟨⟨.tag, tag.name, #[tag.element]⟩ :: block :: outer, ds⟩ where
  stack := by
    refine .block rfl ?_ h.stack
    change (tag.element.location?).map (Entry.mk tag.name) = _
    rw [Tag.location?_element, Tag.markup?_eq_some hne]
    rfl
  opened := by
    rw [Pairing.push, List.map_append, ← h.opened, trailsIn]
    rw [show Node.tagTrails _ [tag.element] = [] from
      Node.tagTrails_markup _ (by simp) "" tag.spans]
    rfl
  problems := h.problems
  quiet := h.quiet

theorem close {e : Entry} {es : List Entry} (h : Follows m ⟨block :: parent :: outer, ds⟩)
    (hstack : m.stack = e :: es) :
    Follows { m with stack := es } ⟨parent.append [block.toNode] :: outer, ds⟩ := by
  have htracks := h.stack
  have hopened := h.opened
  rw [hstack] at htracks hopened
  exact ⟨htracks.close, htracks.trailsIn_close.trans hopened, h.problems, h.quiet⟩

theorem stray (h : Follows m ⟨[block], ds⟩) (tag : Tag) :
    Follows (m.pop tag.name) ⟨[block.append [tag.element]], ds ++ [tag.strayProblem]⟩ := by
  have hpop : m.pop tag.name =
      { m with problems := m.problems ++ [.unexpectedCloseTag tag.name] } := by
    rw [Pairing.pop, h.stack.eq_nil]
  have hquiet : ∀ d ∈ [tag.strayProblem], d.problem.isUnclosedBlock = false := by
    intro d hd
    rw [List.mem_singleton.1 hd]
    rfl
  rw [hpop]
  exact (h.append (tagTrails_element tag)).report hquiet

theorem closed (h : Follows m ⟨block :: parent :: outer, ds⟩) (tag : Tag) :
    Follows (m.pop tag.name)
      ⟨parent.append [(block.append [tag.element]).toNode] :: outer,
        ds ++ tag.closingProblems block⟩ := by
  obtain ⟨e, es, hstack⟩ := h.stack.exists_cons
  have htracks := h.stack
  rw [hstack] at htracks
  have hpop : m.pop tag.name =
      { m with
        stack := es
        problems := m.problems ++
          ((tag.closingProblems block).map Diagnostic.problem).filter Problem.isPairing } := by
    rw [Pairing.pop, hstack, tag.pairing_closingProblems htracks.opening?_eq]
  rw [hpop]
  refine ((h.append (tagTrails_element tag)).close hstack).report ?_
  intro d hd
  exact Tag.quiet_closingProblems hd

end Follows

/-- The pairing behind a piece. Text does not count. -/
def Pairing.place (options : Options) (m : Pairing) : Piece → Pairing
  | .text _ => m
  | .tag tag => m.step options tag.heading

/-- What tags of a source are known to be like. -/
def Piece.Sound (piece : Piece) : Prop :=
  ∀ tag, piece = .tag tag → tag.spans ≠ [] ∧ ∀ d ∈ tag.problems, d.problem.isTagLevel = true

namespace Builder

/-- A builder follows the pairing through every piece. -/
theorem Placed.follows {b c : Builder} {piece : Piece} {m : Pairing}
    (h : Placed options b piece c) (hpiece : piece.Sound) (hfollows : Follows m b) :
    Follows (m.place options piece) c := by
  cases h with
  | text block outer ds span =>
    exact hfollows.append fun around => Node.tagTrails_map_span around [span]
  | inline block outer ds tag hkind =>
    have hstep : m.step options tag.heading = m :=
      Pairing.step_single options m (hkind.imp_right And.left)
    rw [Pairing.place, hstep]
    refine (hfollows.append fun around => ?_).reportTag (hpiece tag rfl).2
    exact Node.tagTrails_map_span around tag.spans
  | expression block outer ds tag hkind hnew =>
    have hstep : m.step options tag.heading = m := Pairing.step_single options m (.inr hkind)
    rw [Pairing.place, hstep]
    refine (hfollows.append fun around => ?_).reportTag (hpiece tag rfl).2
    exact Node.tagTrails_markup around (by split <;> simp) tag.name tag.spans
  | continued block outer ds tag hkind hold =>
    have hbranch : tag.heading.name = "elseif" ∧ options.isBranchBlock m.topName := by
      rw [← hfollows.stack.name_eq_topName]
      exact continues_iff.1 hold
    rw [Pairing.place, Pairing.step_blockOpen options m hkind, if_pos hbranch]
    exact (hfollows.append (tagTrails_element tag)).reportTag (hpiece tag rfl).2
  | opened block outer ds tag hkind hnew =>
    have hother : ¬ (tag.heading.name = "elseif" ∧ options.isBranchBlock m.topName) := by
      intro hbranch
      rw [← hfollows.stack.name_eq_topName] at hbranch
      rw [continues_iff.2 hbranch] at hnew
      cases hnew
    rw [Pairing.place, Pairing.step_blockOpen options m hkind, if_neg hother]
    exact (hfollows.push (hpiece tag rfl).1).reportTag (hpiece tag rfl).2
  | stray root ds tag hkind =>
    rw [Pairing.place, Pairing.step_blockClose options m hkind]
    exact (hfollows.stray tag).reportTag (hpiece tag rfl).2
  | closed block parent outer ds tag hkind =>
    rw [Pairing.place, Pairing.step_blockClose options m hkind]
    exact (hfollows.closed tag).reportTag (hpiece tag rfl).2

theorem PlacedAll.follows {b c : Builder} {pieces : List Piece} {m : Pairing}
    (h : PlacedAll options b pieces c) (hpieces : ∀ piece ∈ pieces, piece.Sound)
    (hfollows : Follows m b) : Follows (pieces.foldl (Pairing.place options) m) c := by
  induction h generalizing m with
  | nil b => exact hfollows
  | cons hfirst _ ih =>
    refine ih (fun piece hpiece => hpieces piece (List.mem_cons_of_mem _ hpiece)) ?_
    exact hfirst.follows (hpieces _ List.mem_cons_self) hfollows

/-- Closing what is left keeps the trails and tells of each entry, the innermost
first. -/
theorem closeAll_tracks {block : OpenBlock} {outer : List OpenBlock} {es : List Entry}
    (report : Bool) (ds : Array Diagnostic) (h : Tracks (block :: outer) es) :
    Node.tagTrails [] (closeAll report block outer ds).root.children =
        trailsIn (block :: outer) es ∧
      (closeAll report block outer ds).diagnostics =
        ds.toList ++ if report then es.map Entry.unclosed else [] := by
  induction outer generalizing block es ds with
  | nil =>
    cases h with
    | root hkind hname => exact ⟨rfl, by simp [closeAll]⟩
    | block _ _ h => cases h
  | cons parent outer ih =>
    cases es with
    | nil => cases h
    | cons e es =>
      obtain ⟨htrails, hdiagnostics⟩ := ih (if report then ds ++ unclosed block else ds) h.close
      rw [closeAll, OpenBlock.push_eq_append]
      refine ⟨htrails.trans h.trailsIn_close, ?_⟩
      rw [hdiagnostics, h.unclosed_eq]
      cases report with
      | true => simp
      | false => simp

/-- Where nothing but unclosed blocks is reported, they are those that are left
open. -/
theorem of_diagnostics_eq_unclosed {m : Pairing} {block : OpenBlock} {outer : List OpenBlock}
    {ds : Array Diagnostic} {es : List Entry} (h : Follows m ⟨block :: outer, ds⟩)
    (hunclosed : (closeAll true block outer ds).diagnostics = es.map Entry.unclosed) :
    ds = #[] ∧ Tracks (block :: outer) es := by
  rw [(closeAll_tracks true ds h.stack).2, if_pos rfl] at hunclosed
  have hnone : ds.toList = [] := by
    rw [List.eq_nil_iff_forall_not_mem]
    intro d hd
    have hmem : d ∈ es.map Entry.unclosed := by
      rw [← hunclosed]
      exact List.mem_append_left _ hd
    obtain ⟨e, -, rfl⟩ := List.mem_map.1 hmem
    cases h.quiet _ hd
  rw [hnone, List.nil_append] at hunclosed
  constructor
  · exact Array.toList_eq_nil_iff.1 hnone
  · have hstack : m.stack = es :=
      (List.map_inj_right fun _ _ heq => Entry.unclosed_injective heq).1 hunclosed
    rw [← hstack]
    exact h.stack

end Builder

/-- The pieces of a source move the pairing as its headings do. -/
theorem Pairing.foldl_place (options : Options) (m : Pairing) (pieces : List Piece) :
    pieces.foldl (place options) m =
      ((pieces.filterMap Piece.tag?).map Tag.heading).foldl (step options) m := by
  induction pieces generalizing m with
  | nil => rfl
  | cons piece pieces ih =>
    cases piece with
    | text span => exact ih m
    | tag tag => exact ih (m.step options tag.heading)

theorem Piece.Cut.sound {source : String} {pieces : List Piece} {rest : SymbolStream}
    (h : Cut (.ofSource source) pieces rest) {piece : Piece} (hpiece : piece ∈ pieces) :
    piece.Sound := by
  rintro tag rfl
  exact ⟨(h.formed_ofSource hpiece).1.spans_ne_nil, (h.formed_ofSource hpiece).2⟩

/-- The tags of the pieces of a source have the headings of its symbols. -/
theorem Piece.Cut.run_eq {source : String} {pieces : List Piece} {rest : SymbolStream}
    (h : Cut (.ofSource source) pieces rest) (options : Options) :
    pieces.foldl (Pairing.place options) .empty =
      pairing source options := by
  have hfollow := symbols_follow source
  rw [← SymbolStream.upcoming_ofSource] at hfollow
  rw [Pairing.foldl_place, h.headings hfollow, SymbolStream.upcoming_ofSource]
  rfl

/-- The builder of a parse has placed tags that are formed, and has done what the
pairing of the tags of the source does. -/
theorem parse_follows (source : String) (options : Options) :
    ∃ pieces block outer ds, (∀ tag, .tag tag ∈ pieces → tag.Formed) ∧
      Builder.PlacedAll options ⟨[.empty .text], #[]⟩ pieces ⟨block :: outer, ds⟩ ∧
      Follows (pairing source options) ⟨block :: outer, ds⟩ ∧
      parse source options =
        .ok (Builder.closeAll options.reportUnclosed block outer ds) := by
  obtain ⟨pieces, rest, block, outer, ds, hcut, hplaced, hparse⟩ :=
    parse_eq_closeAll source options
  refine ⟨pieces, block, outer, ds, fun _ htag => (hcut.formed_ofSource htag).1, hplaced, ?_,
    hparse⟩
  rw [← hcut.run_eq options]
  exact hplaced.follows (fun _ => hcut.sound) .start

/-- The blocks and diagnostics of a parse are those of the pairing of its
tags. -/
theorem parse_pairs (source : String) (options : Options) :
    ∃ p front, parse source options = .ok p ∧
      (p.diagnostics.map Diagnostic.problem).filter Problem.isPairing =
        (pairing source options).problems ∧
      Node.tagTrails [] p.root.children =
        (pairing source options).opened.map (·.map some) ∧
      p.diagnostics = front ++
        (if options.reportUnclosed then
          (pairing source options).stack.map Entry.unclosed
        else []) ∧
      ∀ d ∈ front, d.problem.isUnclosedBlock = false := by
  obtain ⟨-, block, outer, ds, -, -, hfollows, hparse⟩ := parse_follows source options
  obtain ⟨htrails, hdiagnostics⟩ :=
    Builder.closeAll_tracks options.reportUnclosed ds hfollows.stack
  refine ⟨_, ds.toList, hparse, ?_, htrails.trans hfollows.opened, hdiagnostics, hfollows.quiet⟩
  have hunclosed : ∀ es : List Entry,
      ((es.map Entry.unclosed).map Diagnostic.problem).filter Problem.isPairing = [] := by
    intro es
    rw [List.filter_eq_nil_iff]
    intro p hp
    simp only [List.map_map, List.mem_map] at hp
    obtain ⟨e, -, rfl⟩ := hp
    exact Bool.false_ne_true
  rw [hdiagnostics, List.map_append, List.filter_append, hfollows.problems]
  split
  · rw [hunclosed, List.append_nil]
  · rw [List.map_nil, List.filter_nil, List.append_nil]

end BraceTemplate

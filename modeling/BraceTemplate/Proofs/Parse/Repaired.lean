import BraceTemplate.Proofs.Parse.Appended
import BraceTemplate.Proofs.Template.Closing

/-!
# Parses with the missing closing tags

Blocks that are reported as unclosed are open to the end of the source, one
inside the other. With their closing tags written behind the source, the
innermost first, nothing is reported, and each of the blocks has its closing tag
behind its other children. Nothing else changes.
-/

namespace BraceTemplate

open Template

/-- Nodes in which blocks have one more child each, behind the others. The blocks
are given by the names and places of their openings, each inside the next, which
is the last node of what is around it. -/
inductive Repaired : List (Entry × Node) → List Node → List Node → Prop
  | none (nodes : List Node) : Repaired [] nodes nodes
  | closed {others : List (Entry × Node)} (front : List Node) {inner inner' : List Node}
      {e : Entry} (last : Node) (hopening : (Block.mk .tag e.name inner).opening? = some e)
      (h : Repaired others inner inner') :
      Repaired (others ++ [(e, last)]) (front ++ [.block .tag e.name inner])
        (front ++ [.block .tag e.name (inner' ++ [last])])

/-- The same open block where the blocks inside it are repaired. -/
structure OpenBlock.Repairs (done : List (Entry × Node)) (b c : OpenBlock) : Prop where
  kind : c.kind = b.kind
  name : c.name = b.name
  children : Repaired done b.children.toList c.children.toList

namespace Builder

variable {options : Options} {block block' parent : OpenBlock} {outer : List OpenBlock}
  {e : Entry} {es : List Entry} {done : List (Entry × Node)} {offset : Nat}

/-- A closing tag of the right name closes the current block and reports
nothing. -/
theorem placed_closesAt {tag : Tag} (htag : ClosesAt offset block.name tag)
    (ds : Array Diagnostic) :
    Placed options ⟨block :: parent :: outer, ds⟩ (.tag tag)
      ⟨parent.append [(block.append [closingAt offset block.name]).toNode] :: outer, ds⟩ := by
  have helement : tag.element = closingAt offset block.name := by
    rw [Tag.element, htag.spans]
    rfl
  have hname : tag.closingProblems block = [] := by
    rw [Tag.closingProblems, htag.name]
    simp
  have hplaced := @Placed.closed options block parent outer ds tag htag.kind
  rw [helement, hname, htag.problems] at hplaced
  simpa using hplaced

/-- A block that was repaired joins its parent with its closing tag. -/
theorem Repairs.close (h : Tracks (block :: parent :: outer) (e :: es))
    (hrepairs : block.Repairs done block') (last : Node) :
    (parent.append [block.toNode]).Repairs (done ++ [(e, last)])
      (parent.append [(block'.append [last]).toNode]) := by
  refine ⟨rfl, rfl, ?_⟩
  cases h with
  | block htag hentry _ =>
    have hname : block.name = e.name := Block.name_of_opening? hentry
    rw [OpenBlock.toBlock, htag, hname] at hentry
    rw [OpenBlock.children_append, OpenBlock.children_append, OpenBlock.toNode_eq,
      OpenBlock.toNode_eq, OpenBlock.kind_append, OpenBlock.name_append,
      OpenBlock.children_append, hrepairs.kind, hrepairs.name, htag, hname]
    exact .closed _ last hentry hrepairs.children

/-- The closing tags of the open blocks leave the root alone, with the blocks in
it repaired. -/
theorem closeAll_repaired (report : Bool) {pieces : List Piece} (ds ds' : Array Diagnostic)
    (h : Tracks (block :: outer) es) (hrepairs : block.Repairs done block')
    (hread : ReadClosings offset (es.map Entry.name) pieces) :
    ∃ nodes : Array Node,
      PlacedAll options ⟨block' :: outer, ds'⟩ pieces ⟨[⟨.text, "", nodes⟩], ds'⟩ ∧
        Repaired (done ++ es.zip (closingsAt offset (es.map Entry.name)))
          (closeAll report block outer ds).root.children nodes.toList := by
  induction outer generalizing block block' es done offset pieces ds with
  | nil =>
    cases h with
    | block _ _ h => cases h
    | root htext hempty =>
      cases hread
      have hroot : block' = ⟨.text, "", block'.children⟩ := by
        rw [← htext, ← hempty, ← hrepairs.kind, ← hrepairs.name]
      refine ⟨block'.children, ?_, ?_⟩
      · rw [← hroot]
        apply PlacedAll.nil
      · rw [List.zip_nil_left, List.append_nil]
        exact hrepairs.children
  | cons parent outer ih =>
    obtain ⟨e, es, rfl⟩ := h.exists_cons
    have hname : block'.name = e.name :=
      hrepairs.name.trans (Block.name_of_opening? h.opening?_eq)
    cases hread with
    | cons htag hrest =>
      rw [← hname] at htag
      have hfirst := @placed_closesAt options block' parent outer offset _ htag ds'
      obtain ⟨nodes, hplaced, hrepaired⟩ := ih (if report then ds ++ unclosed block else ds) h.close
        (Repairs.close h hrepairs (closingAt offset block'.name)) hrest
      refine ⟨nodes, .cons hfirst hplaced, ?_⟩
      rw [closeAll, OpenBlock.push_eq_append]
      rw [List.append_assoc, hname] at hrepaired
      exact hrepaired

end Builder

/-- Text that does not end like the front of a delimiter ends where closing tags
start. -/
theorem settled_closings {source : String} {before : List Symbol} {x : Symbol}
    (h : symbols source = before ++ [x]) (hkind : x.kind = .text)
    (hlast : ∀ c ∈ x.text.toList.getLast?, c ≠ '{' ∧ c ≠ '\\') (names : List String) :
    (Scanner.behind source before.length).Settled (closings names).toList := by
  rw [toList_closings]
  cases names with
  | nil =>
    change Lexeme.next _ (_ ++ []) = _
    rw [List.append_nil]
  | cons name names => exact settled_of_text h hkind hlast _

/-- With the missing closing tags behind it, a source parses without diagnostics,
and each block that was reported is closed by its tag. -/
theorem parse_repaired (source : String) (options : Options)
    (hreport : options.reportUnclosed = true) {p : Parse} (hp : parse source options = .ok p)
    {es : List Entry} (hunclosed : p.diagnostics = es.map Entry.unclosed)
    (hnames : ∀ e ∈ es, ∀ c ∈ e.name.toList, Lexeme.isWordChar c = true)
    (hcomments : ∀ x ∈ symbols source, x.kind = .comment → x.Finished)
    (hlast : ∀ x ∈ (symbols source).getLast?, x.kind = .text →
      ∀ c ∈ x.text.toList.getLast?, c ≠ '{' ∧ c ≠ '\\') :
    ∃ nodes, parse (source ++ closings (es.map Entry.name)) options =
        .ok ⟨⟨p.root.kind, p.root.name, nodes⟩, []⟩ ∧
      Repaired (es.zip (closingsAt (Text.byteLength source.toList) (es.map Entry.name)))
        p.root.children nodes := by
  have hlevel : Diagnostic.ofTags p.diagnostics = [] := by
    rw [hunclosed, Diagnostic.ofTags, List.filter_eq_nil_iff]
    intro d hd
    obtain ⟨e, -, rfl⟩ := List.mem_map.1 hd
    exact Bool.false_ne_true
  have hclosed := closed_of_parse hp hlevel
  have htext : ∀ before x, symbols source = before ++ [x] → x.kind = .text →
      (Scanner.behind source before.length).Settled (closings (es.map Entry.name)).toList := by
    intro before x hsymbols hkind
    refine settled_closings hsymbols hkind (hlast x ?_ hkind) _
    rw [hsymbols, List.getLast?_concat]
    rfl
  have hwords : ∀ name ∈ es.map Entry.name, IsName name := by
    intro name hname
    obtain ⟨e, he, rfl⟩ := List.mem_map.1 hname
    exact hnames e he
  obtain ⟨second, _, hsecond, -, hoff⟩ := Piece.readAll_readOff (closings (es.map Entry.name))
  obtain ⟨m, block, outer, ds, hfollows, hparse, hboth⟩ :=
    parse_goes_on options hclosed hcomments htext hsecond
  cases hp.symm.trans hparse
  rw [hreport] at hunclosed
  obtain ⟨rfl, htracks⟩ := Builder.of_diagnostics_eq_unclosed hfollows hunclosed
  rw [symbols_closings hwords] at hoff
  have hread := (readClosings_of_readOff hwords hoff).move (Text.byteLength source.toList)
  rw [Nat.zero_add] at hread
  obtain ⟨nodes, hclosing, hrepaired⟩ :=
    Builder.closeAll_repaired options.reportUnclosed #[] #[] htracks ⟨rfl, rfl, .none _⟩ hread
  obtain ⟨hkind, hname⟩ := Builder.root_closeAll options.reportUnclosed #[] htracks
  refine ⟨nodes.toList, (hboth _ _ _ hclosing).trans ?_, hrepaired⟩
  rw [hkind, hname]
  rfl

/-- A block without a name inside another block: `{{#each x}}{{!-- y --}}{{#}}é`. -/
def unfinished : String :=
  "\x7b\x7b#each x\x7d\x7d" ++ "\x7b\x7b!-- y --\x7d\x7d" ++ "\x7b\x7b#\x7d\x7dé"

/-- The inner block is closed first. -/
theorem parse_repaired_unfinished :
    ∃ p nodes, parse unfinished {} = .ok p ∧
      p.diagnostics = [⟨.unclosedBlock "", ⟨23, 28⟩⟩, ⟨.unclosedBlock "each", ⟨0, 11⟩⟩] ∧
      parse (unfinished ++ "\x7b\x7b/\x7d\x7d\x7b\x7b/each\x7d\x7d") {} =
        .ok ⟨⟨p.root.kind, p.root.name, nodes⟩, []⟩ ∧
      Repaired [(⟨"", ⟨23, 28⟩⟩, closingAt 30 ""), (⟨"each", ⟨0, 11⟩⟩, closingAt 35 "each")]
        p.root.children nodes := by
  have hfound : (parse unfinished {}).toOption.map Parse.diagnostics =
      some [⟨.unclosedBlock "", ⟨23, 28⟩⟩, ⟨.unclosedBlock "each", ⟨0, 11⟩⟩] := by
    decide +kernel
  have hcomments : ∀ x ∈ symbols unfinished, x.kind = .comment → x.Finished := by
    decide +kernel
  have hlast : (symbols unfinished).getLast? = some ⟨.text, ⟨28, 30⟩, "é"⟩ := by
    decide +kernel
  have hends : ∀ x ∈ (symbols unfinished).getLast?, x.kind = .text →
      ∀ c ∈ x.text.toList.getLast?, c ≠ '{' ∧ c ≠ '\\' := by
    intro x hx _ c hc
    rw [hlast] at hx
    cases hx
    cases hc
    decide
  have hnames : ∀ e ∈ [Entry.mk "" ⟨23, 28⟩, ⟨"each", ⟨0, 11⟩⟩],
      ∀ c ∈ e.name.toList, Lexeme.isWordChar c = true := by
    have hall : [Entry.mk "" ⟨23, 28⟩, ⟨"each", ⟨0, 11⟩⟩].all
        (·.name.toList.all Lexeme.isWordChar) = true := by
      decide +kernel
    intro e he
    exact List.all_eq_true.1 (List.all_eq_true.1 hall e he)
  obtain ⟨p, hp, -⟩ := parse_ofTags unfinished {}
  rw [hp] at hfound
  have hd : p.diagnostics = [⟨"", ⟨23, 28⟩⟩, ⟨"each", ⟨0, 11⟩⟩].map Entry.unclosed :=
    Option.some.inj hfound
  obtain ⟨nodes, hrepaired, hnodes⟩ :=
    parse_repaired unfinished {} rfl hp hd hnames hcomments hends
  exact ⟨p, nodes, hp, hd, hrepaired, hnodes⟩

end BraceTemplate

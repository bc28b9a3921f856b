import BraceTemplate.Proofs.Builder.Held
import BraceTemplate.Report

/-!
# Where diagnostics point

A diagnostic points at places of tags only: at the name of a closing tag, at the
markup of an opening one, or where a tag reports something itself. Whatever holds
of all these places holds of all labels.
-/

namespace BraceTemplate

/-- Where else a problem points than at the location of its diagnostic. -/
def Problem.openedAt? : Problem → Option Location
  | unbalancedTag _ _ openedAt => openedAt
  | _ => none

theorem Problem.openedAt?_of_isTagLevel {p : Problem} (h : p.isTagLevel = true) :
    p.openedAt? = none := by
  cases p <;> first | rfl | cases h

namespace Diagnostic

/-- All labels stand at places of a kind. -/
def Located (P : Location → Prop) (d : Diagnostic) : Prop :=
  ∀ label ∈ Report.labelsOf d, P label.location

theorem located_iff {P : Location → Prop} {d : Diagnostic} :
    d.Located P ↔ P d.location ∧ ∀ l ∈ d.problem.openedAt?, P l := by
  obtain ⟨problem, location⟩ := d
  cases problem with
  | unbalancedTag expected actual openedAt =>
    cases openedAt <;> simp [Located, Report.labelsOf, Problem.openedAt?]
  | _ => simp [Located, Report.labelsOf, Problem.openedAt?]

end Diagnostic

/-- The places of a tag are of a kind. -/
structure Tag.Located (P : Location → Prop) (tag : Tag) : Prop where
  nameAt : P tag.nameAt
  markup : ∃ l, tag.markup? = some l ∧ P l
  problems : ∀ d ∈ tag.problems, d.Located P

namespace Builder

variable {options : Options} {P : Location → Prop}

/-- Blocks but the root were opened at places of a kind. -/
def OpenedAt (P : Location → Prop) : List OpenBlock → Prop
  | block :: parent :: outer =>
    (∃ l, block.openedAt? = some l ∧ P l) ∧ OpenedAt P (parent :: outer)
  | _ => True

structure Located (P : Location → Prop) (b : Builder) : Prop where
  stack : OpenedAt P b.stack
  diagnostics : ∀ d ∈ b.diagnostics.toList, d.Located P

section Steps
variable {block parent : OpenBlock} {outer : List OpenBlock} {ds : Array Diagnostic} {tag : Tag}

/-- The first child stays the first. -/
theorem openedAt?_append {l : Location} (h : block.openedAt? = some l) (nodes : List Node) :
    (block.append nodes).openedAt? = some l := by
  rw [OpenBlock.openedAt?, ← Array.getElem?_toList] at h ⊢
  rw [OpenBlock.children_append]
  cases hchildren : block.children.toList with
  | nil => rw [hchildren] at h; cases h
  | cons first rest => rw [hchildren] at h; exact h

theorem OpenedAt.append (h : OpenedAt P (block :: outer)) (nodes : List Node) :
    OpenedAt P (block.append nodes :: outer) := by
  cases outer with
  | nil => trivial
  | cons parent outer =>
    obtain ⟨⟨l, hl, hP⟩, houter⟩ := h
    exact ⟨⟨l, openedAt?_append hl nodes, hP⟩, houter⟩

theorem Located.append (h : Located P ⟨block :: outer, ds⟩) (nodes : List Node) :
    Located P ⟨block.append nodes :: outer, ds⟩ :=
  ⟨h.stack.append nodes, h.diagnostics⟩

theorem Located.report {stack : List OpenBlock} (h : Located P ⟨stack, ds⟩)
    {more : List Diagnostic} (hmore : ∀ d ∈ more, d.Located P) :
    Located P ⟨stack, ds ++ more⟩ := by
  refine ⟨h.stack, fun d hd => ?_⟩
  rw [Array.toList_appendList] at hd
  exact (List.mem_append.1 hd).elim (h.diagnostics d) (hmore d)

theorem Located.push (h : Located P ⟨block :: outer, ds⟩) (htag : tag.Located P) :
    Located P ⟨⟨.tag, tag.name, #[tag.element]⟩ :: block :: outer, ds⟩ := by
  obtain ⟨l, hl, hP⟩ := htag.markup
  refine ⟨⟨⟨l, ?_, hP⟩, h.stack⟩, h.diagnostics⟩
  change tag.element.location? = some l
  rw [Tag.location?_element, hl]

theorem Located.close (h : Located P ⟨block :: parent :: outer, ds⟩) :
    Located P ⟨parent.append [block.toNode] :: outer, ds⟩ :=
  ⟨h.stack.2.append _, h.diagnostics⟩

theorem located_closingProblems (hopened : ∃ l, block.openedAt? = some l ∧ P l)
    (htag : tag.Located P) : ∀ d ∈ tag.closingProblems block, d.Located P := by
  intro d hd
  rw [Tag.closingProblems] at hd
  split at hd
  · rw [List.mem_singleton.1 hd, Diagnostic.located_iff]
    obtain ⟨l, hl, hP⟩ := hopened
    refine ⟨htag.nameAt, fun l' hl' => ?_⟩
    rw [show block.openedAt? = some l' from hl'] at hl
    cases hl
    exact hP
  · cases hd

end Steps

theorem Placed.located {b c : Builder} {piece : Piece} (h : Placed options b piece c)
    (hpiece : ∀ tag, piece = .tag tag → tag.Located P) (hlocated : Located P b) :
    Located P c := by
  cases h with
  | text block outer ds span => exact hlocated.append _
  | inline block outer ds tag | expression block outer ds tag | continued block outer ds tag =>
    exact (hlocated.append _).report (hpiece tag rfl).problems
  | opened block outer ds tag =>
    exact (hlocated.push (hpiece tag rfl)).report (hpiece tag rfl).problems
  | stray root ds tag =>
    refine ((hlocated.append _).report ?_).report (hpiece tag rfl).problems
    intro d hd
    rw [List.mem_singleton.1 hd, Diagnostic.located_iff]
    exact ⟨(hpiece tag rfl).nameAt, nofun⟩
  | closed block parent outer ds tag =>
    refine ((hlocated.append _).close.report ?_).report (hpiece tag rfl).problems
    exact located_closingProblems hlocated.stack.1 (hpiece tag rfl)

theorem PlacedAll.located {b c : Builder} {pieces : List Piece} (h : PlacedAll options b pieces c)
    (hpieces : ∀ tag, .tag tag ∈ pieces → tag.Located P) (hlocated : Located P b) :
    Located P c := by
  induction h with
  | nil b => exact hlocated
  | cons hfirst _ ih =>
    refine ih (fun tag htag => hpieces tag (List.mem_cons_of_mem _ htag)) ?_
    refine hfirst.located ?_ hlocated
    rintro tag rfl
    exact hpieces tag List.mem_cons_self

/-- Blocks that are never closed are told of where they were opened. -/
theorem Located.unclosed {block parent : OpenBlock} {outer : List OpenBlock}
    {ds : Array Diagnostic} (h : Located P ⟨block :: parent :: outer, ds⟩) :
    ∀ d ∈ unclosed block, d.Located P := by
  intro d hd
  obtain ⟨l, hl, hP⟩ := h.stack.1
  rw [Builder.unclosed, hl] at hd
  split at hd
  · rw [List.mem_singleton.1 hd, Diagnostic.located_iff]
    exact ⟨hP, nofun⟩
  · cases hd

theorem Located.closeAll {block : OpenBlock} {outer : List OpenBlock} {ds : Array Diagnostic}
    (report : Bool) (h : Located P ⟨block :: outer, ds⟩) :
    ∀ d ∈ (closeAll report block outer ds).diagnostics, d.Located P := by
  induction outer generalizing block ds with
  | nil => exact h.diagnostics
  | cons parent outer ih =>
    rw [Builder.closeAll, OpenBlock.push_eq_append]
    cases report with
    | false => exact ih h.close
    | true => exact ih (h.close.report h.unclosed)

end Builder

end BraceTemplate

import BraceTemplate.Proofs.Builder.Placing
import BraceTemplate.Proofs.Template.Cutting

/-!
# Building what is written

Placing the pieces of written items adds their nodes to the current block and
leaves the blocks around it as they are. Nothing is reported on the way: every
block is closed under its own name.
-/

namespace BraceTemplate

namespace Template

open Builder

variable {options : Options} {block : OpenBlock} {outer : List OpenBlock} {ds : Array Diagnostic}
  {offset : Nat}

theorem append_no_problems {m : Markup} {tag : Tag} (h : m.ReadAs offset tag)
    (ds : Array Diagnostic) : ds ++ tag.problems = ds := by
  rw [h.problems]
  simp

theorem Markup.ReadAs.element {m : Markup} {tag : Tag} (h : m.ReadAs offset tag) :
    tag.element = elementAt offset m := by
  rw [Tag.element, h.spans]
  rfl

theorem continues_eq_false {tag : Tag} {parent : String} (h : tag.name ≠ "elseif") :
    continues options parent tag = false := by
  rw [← Bool.not_eq_true, continues_iff]
  exact fun hold => h hold.1

/-- A tag that stands for itself adds its nodes. -/
theorem Single.placed (single : Single) {tag : Tag} {c : Builder}
    (hread : single.markup.ReadAs offset tag)
    (hbranch : single.isBranch = true → options.isBranchBlock block.name = true)
    (h : Placed options ⟨block :: outer, ds⟩ (.tag tag) c) :
    c = ⟨block.append (single.nodesAt offset) :: outer, ds⟩ := by
  have hkind := hread.kind
  have hname := hread.name
  cases single with
  | comment c =>
    rw [h.of_comment hkind, append_no_problems hread, hread.spans]
    rfl
  | expression raw name args =>
    have hnew : tag.name ≠ "elseif" := fun heq => name.ne_elseif (hname.symm.trans heq)
    have hother : (tag.name == "else") = false :=
      beq_eq_false_iff_ne.2 fun heq => name.ne_else (hname.symm.trans heq)
    rw [h.of_expression hkind, append_no_problems hread, continues_eq_false hnew,
      if_neg Bool.false_ne_true, Tag.expressionUnder, hother, Bool.false_and,
      if_neg Bool.false_ne_true, hname, hread.spans]
    rfl
  | «else» args =>
    have helse : tag.name = "else" := hname
    have hnew : tag.name ≠ "elseif" := by
      rw [helse]
      decide
    rw [h.of_expression hkind, append_no_problems hread, continues_eq_false hnew,
      if_neg Bool.false_ne_true, Tag.expressionUnder, helse, hbranch rfl, hread.spans]
    rfl
  | «elseif» args =>
    have hold : continues options block.name tag = true := continues_iff.2 ⟨hname, hbranch rfl⟩
    rw [h.of_expression hkind, append_no_problems hread, if_pos hold, hread.spans]
    rfl
  | hashElseif args =>
    have hold : continues options block.name tag = true := continues_iff.2 ⟨hname, hbranch rfl⟩
    rw [h.of_blockOpen hkind, if_pos hold, append_no_problems hread, hread.element]
    rfl

theorem ReadAll.split {fs more : List Fragment} {pieces : List Piece}
    (h : ReadAll offset (fs ++ more) pieces) :
    ∃ front back, pieces = front ++ back ∧ ReadAll offset fs front ∧
      ReadAll (offset + extent fs) more back := by
  induction fs generalizing offset pieces with
  | nil => exact ⟨[], pieces, rfl, .nil offset, h⟩
  | cons f fs ih =>
    rw [extent, List.flatMap_cons, width_append, ← Nat.add_assoc]
    cases h with
    | text hspan hrest =>
      obtain ⟨front, back, rfl, hfront, hback⟩ := ih hrest
      exact ⟨_, back, rfl, .text hspan hfront, hback⟩
    | markup htag hrest =>
      obtain ⟨front, back, rfl, hfront, hback⟩ := ih hrest
      exact ⟨_, back, rfl, .markup htag hfront, hback⟩

theorem ReadAll.of_text {t : Plain} {pieces : List Piece}
    (h : ReadAll offset [.text t] pieces) :
    ∃ span, pieces = [.text span] ∧ [span] = spansAt offset (Fragment.text t).parts := by
  cases h with
  | text hspan hrest =>
    cases hrest
    exact ⟨_, rfl, hspan⟩

theorem ReadAll.of_markup {m : Markup} {pieces : List Piece}
    (h : ReadAll offset [.markup m] pieces) :
    ∃ tag, pieces = [.tag tag] ∧ m.ReadAs offset tag := by
  cases h with
  | markup htag hrest =>
    cases hrest
    exact ⟨_, rfl, htag⟩

/-- The tag that opens a written block opens it. -/
theorem placed_opening {name : Name} {args : Args} {tag : Tag} {c : Builder}
    (hread : (Markup.named .hash false name.word args).ReadAs offset tag)
    (h : Placed options ⟨block :: outer, ds⟩ (.tag tag) c) :
    c = ⟨⟨.tag, name.word.text,
      #[elementAt offset (.named .hash false name.word args)]⟩ :: block :: outer, ds⟩ := by
  have hname : tag.name = name.word.text := hread.name
  have hnew : tag.name ≠ "elseif" := fun heq => name.ne_elseif (hname.symm.trans heq)
  rw [h.of_blockOpen hread.kind, continues_eq_false hnew, if_neg Bool.false_ne_true,
    append_no_problems hread, hread.element, hname]

/-- The tag that closes a written block closes the block of its name. -/
theorem placed_closing {inner : OpenBlock} {name : Word} {tag : Tag} {c : Builder}
    (hread : (Markup.named .slash false name []).ReadAs offset tag) (hname : inner.name = name.text)
    (h : Placed options ⟨inner :: block :: outer, ds⟩ (.tag tag) c) :
    c = ⟨block.append
      [(inner.append [elementAt offset (.named .slash false name [])]).toNode] :: outer, ds⟩ := by
  have hclosing : tag.closingProblems inner = [] := by
    have heq : tag.name = inner.name := hread.name.trans hname.symm
    rw [Tag.closingProblems, if_neg (by simp [heq])]
  have hnone : ds ++ ([] : List Diagnostic) = ds := by simp
  rw [h.of_blockClose hread.kind, hclosing, hnone, append_no_problems hread, hread.element]

mutual

/-- The pieces of a written item add the nodes of the item to the current
block. -/
theorem Item.placed {inBranch : Bool} {block : OpenBlock} {outer : List OpenBlock}
    {ds : Array Diagnostic} {offset : Nat} {pieces : List Piece} {c : Builder} :
    (item : Item) → item.fits options inBranch = true →
      (inBranch = true → options.isBranchBlock block.name = true) →
      ReadAll offset item.fragments pieces → PlacedAll options ⟨block :: outer, ds⟩ pieces c →
      c = ⟨block.append (item.nodesAt offset) :: outer, ds⟩
  | .text t, _, _, hread, h => by
    obtain ⟨span, rfl, hspan⟩ := hread.of_text
    rw [h.of_one.of_text, Item.nodesAt, ← hspan]
    rfl
  | .single tag, hfits, hbranch, hread, h => by
    have hsingle : tag.isBranch = true → options.isBranchBlock block.name = true := by
      intro htrue
      rw [Item.fits, htrue] at hfits
      exact hbranch hfits
    obtain ⟨read, rfl, htag⟩ := hread.of_markup
    exact tag.placed htag hsingle h.of_one
  | .block name args body, hfits, _, hread, h => by
    rw [Item.fits] at hfits
    cases hread with
    | markup hopen hread =>
      obtain ⟨front, back, rfl, hbody, hread⟩ := hread.split
      obtain ⟨closing, rfl, hclose⟩ := hread.of_markup
      cases h with
      | cons hfirst hmore =>
        obtain ⟨d, hfront, hback⟩ := hmore.split
        have hopened := placed_opening hopen hfirst
        subst hopened
        have hfilled := placed_items body hfits (fun hin => hin) hbody hfront
        subst hfilled
        rw [placed_closing hclose rfl hback.of_one, Item.nodesAt, OpenBlock.toNode_eq,
          OpenBlock.children_append, OpenBlock.children_append]
        rfl

/-- The pieces of written items add the nodes of the items to the current
block. -/
theorem placed_items {inBranch : Bool} {block : OpenBlock} {outer : List OpenBlock}
    {ds : Array Diagnostic} {offset : Nat} {pieces : List Piece} {c : Builder} :
    (items : List Item) → Item.fit options inBranch items = true →
      (inBranch = true → options.isBranchBlock block.name = true) →
      ReadAll offset (fragments items) pieces → PlacedAll options ⟨block :: outer, ds⟩ pieces c →
      c = ⟨block.append (nodesAt offset items) :: outer, ds⟩
  | [], _, _, hread, h => by
    cases hread
    cases h
    rw [nodesAt, OpenBlock.append_nil]
  | item :: rest, hfit, hbranch, hread, h => by
    rw [Item.fit, Bool.and_eq_true, Bool.and_eq_true] at hfit
    rw [fragments] at hread
    obtain ⟨front, back, rfl, hitem, hread⟩ := hread.split
    obtain ⟨d, hfront, hback⟩ := h.split
    have hfirst := item.placed hfit.1.1 hbranch hitem hfront
    subst hfirst
    refine (placed_items rest hfit.2 ?_ hread hback).trans ?_
    · exact hbranch
    · rw [OpenBlock.append_append, nodesAt]

end

end Template

end BraceTemplate

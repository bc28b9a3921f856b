import BraceTemplate.Proofs.Template.Reading

/-!
# Cutting what is written

The pieces that a written template is cut into are its fragments: one piece of
text for each text, which ends where the next tag is opened, and one tag for
each tag.
-/

namespace BraceTemplate

namespace Template

/-- Pieces that are read as the fragments that were written from an offset on. -/
inductive ReadAll : Nat → List Fragment → List Piece → Prop
  | nil (offset : Nat) : ReadAll offset [] []
  | text {offset : Nat} {t : Plain} {span : Span} {fs : List Fragment} {pieces : List Piece}
      (hspan : [span] = spansAt offset (Fragment.text t).parts)
      (h : ReadAll (offset + width (Fragment.text t).parts) fs pieces) :
      ReadAll offset (.text t :: fs) (.text span :: pieces)
  | markup {offset : Nat} {m : Markup} {tag : Tag} {fs : List Fragment} {pieces : List Piece}
      (htag : m.ReadAs offset tag) (h : ReadAll (offset + width m.parts) fs pieces) :
      ReadAll offset (.markup m :: fs) (.tag tag :: pieces)

namespace Fragment

variable {offset : Nat} {f : Fragment} {fs : List Fragment}

theorem symbolsAt_tokens_cons (offset : Nat) (f : Fragment) (fs : List Fragment) :
    symbolsAt offset (tokens (f :: fs)) =
      symbolsOf offset f.parts ++ symbolsAt (offset + width f.parts) (tokens fs) := by
  rw [tokens_cons, symbolsAt_append, chars_parts]
  rfl

/-- What does not start with text is empty or starts with a tag. -/
theorem isOpenDelimiter_of_head (h : ∀ f ∈ fs.head?, f.isText = false) {x : Symbol}
    (hx : x ∈ (symbolsAt offset (tokens fs)).head?) : x.kind.isOpenDelimiter = true := by
  cases fs with
  | nil => cases hx
  | cons f fs =>
    cases f with
    | text t => exact absurd (h _ rfl) (by simp [isText])
    | markup m =>
      obtain ⟨y, z, more, hsymbols, hopen, -⟩ := m.symbolsOf_parts offset
      rw [symbolsAt_tokens_cons, show (markup m).parts = m.parts from rfl, hsymbols] at hx
      cases hx
      exact hopen

end Fragment

theorem takeText_of_upcoming {s : SymbolStream} {front back : List Symbol}
    (hahead : s.upcoming = front ++ back) (hfront : ∀ x ∈ front, x.kind.isOpenDelimiter = false)
    (hback : ∀ x ∈ back.head?, x.kind.isOpenDelimiter = true) :
    (Piece.takeText s).1 = front ∧ (Piece.takeText s).2.upcoming = back :=
  SymbolStream.takeWhile_of_upcoming hahead
    (fun x hx => by rw [hfront x hx]; rfl) (fun x hx => by rw [hback x hx]; rfl)

section

variable {s : SymbolStream} {offset : Nat} {fs : List Fragment}

/-- No text is read where none was written. -/
theorem readText_of_not_isText (hhead : ∀ f ∈ fs.head?, f.isText = false)
    (hahead : s.upcoming = symbolsAt offset (Fragment.tokens fs)) :
    (Piece.readText s).1 = [] ∧
      (Piece.readText s).2.upcoming = symbolsAt offset (Fragment.tokens fs) := by
  have hall : s.upcoming = [] ++ symbolsAt offset (Fragment.tokens fs) := hahead
  obtain ⟨htext, hleft⟩ := takeText_of_upcoming hall (fun _ h => nomatch h)
    fun x hx => Fragment.isOpenDelimiter_of_head hhead hx
  refine ⟨?_, hleft⟩
  rw [Piece.readText, htext]
  rfl

/-- Text is read up to the tag behind it. -/
theorem readText_of_isText {t : Plain} (hhead : ∀ f ∈ fs.head?, f.isText = false)
    (hahead : s.upcoming = symbolsAt offset (Fragment.tokens (.text t :: fs))) :
    (Piece.readText s).1 = (spansAt offset (Fragment.text t).parts).map Piece.text ∧
      (Piece.readText s).2.upcoming =
        symbolsAt (offset + width (Fragment.text t).parts) (Fragment.tokens fs) := by
  rw [Fragment.symbolsAt_tokens_cons] at hahead
  have hfront : ∀ x ∈ symbolsOf offset (Fragment.text t).parts,
      x.kind.isOpenDelimiter = false := by
    intro x hx
    rw [List.mem_singleton.1 hx]
    rfl
  obtain ⟨htext, hleft⟩ := takeText_of_upcoming hahead hfront
    fun x hx => Fragment.isOpenDelimiter_of_head hhead hx
  have hspan := cover?_one (t := ⟨.text, t.chars⟩) .text t.nonempty offset
  refine ⟨?_, hleft⟩
  rw [Piece.readText, htext]
  exact congrArg (List.map Piece.text) hspan

/-- The text in front of the next tag is the text that was written there. -/
theorem readText_of_upcoming (happart : Fragment.Apart fs)
    (hahead : s.upcoming = symbolsAt offset (Fragment.tokens fs)) :
    ∃ back after, (∀ pieces, ReadAll after back pieces →
        ReadAll offset fs ((Piece.readText s).1 ++ pieces)) ∧
      Fragment.Apart back ∧ (∀ f ∈ back.head?, f.isText = false) ∧
      (Piece.readText s).2.upcoming = symbolsAt after (Fragment.tokens back) := by
  by_cases hhead : ∀ f ∈ fs.head?, f.isText = false
  · obtain ⟨htext, hleft⟩ := readText_of_not_isText hhead hahead
    refine ⟨fs, offset, ?_, happart, hhead, hleft⟩
    intro pieces h
    rw [htext]
    exact h
  · cases fs with
    | nil => exact absurd (fun _ h => nomatch h) hhead
    | cons f back =>
      cases f with
      | markup m =>
        refine absurd ?_ hhead
        intro f hf
        cases hf
        rfl
      | text t =>
        obtain ⟨hapart, hrest⟩ := List.isChain_cons.1 happart
        have hnext : ∀ f ∈ back.head?, f.isText = false := fun f hf =>
          (hapart f hf).resolve_left (by simp [Fragment.isText])
        obtain ⟨htext, hleft⟩ := readText_of_isText hnext hahead
        refine ⟨back, _, ?_, hrest, hnext, hleft⟩
        intro pieces h
        rw [htext]
        exact .text rfl h

end

/-- A written template is cut into its fragments. -/
theorem readAll_of_cut {s rest : SymbolStream} {pieces : List Piece}
    (h : Piece.Cut s pieces rest) {offset : Nat} {fs : List Fragment}
    (happart : Fragment.Apart fs) (hahead : s.upcoming = symbolsAt offset (Fragment.tokens fs)) :
    ReadAll offset fs pieces := by
  induction h generalizing offset fs with
  | @last s hend =>
    obtain ⟨back, after, hfront, -, hhead, hleft⟩ := readText_of_upcoming happart hahead
    rw [SymbolStream.upcoming_of_isEnd hend] at hleft
    cases back with
    | nil =>
      have hall := hfront [] (.nil after)
      rwa [List.append_nil] at hall
    | cons f back =>
      cases f with
      | text t => exact absurd (hhead _ rfl) (by simp [Fragment.isText])
      | markup m =>
        obtain ⟨x, y, more, hsymbols, -⟩ := m.symbolsOf_parts after
        rw [Fragment.symbolsAt_tokens_cons, show (Fragment.markup m).parts = m.parts from rfl,
          hsymbols] at hleft
        cases hleft
  | @tag s t rest pieces hopen htag _ ih =>
    obtain ⟨back, after, hfront, hapart, hhead, hleft⟩ := readText_of_upcoming happart hahead
    rw [← htag] at hleft
    refine hfront _ ?_
    cases back with
    | nil =>
      exact absurd (SymbolStream.isEnd_of_upcoming hleft)
        (Symbol.not_isEnd_of_isOpenDelimiter hopen)
    | cons f back =>
      cases f with
      | text t => exact absurd (hhead _ rfl) (by simp [Fragment.isText])
      | markup m =>
        rw [Fragment.symbolsAt_tokens_cons] at hleft
        obtain ⟨hread, hbehind⟩ := m.read hleft
        exact .markup hread (ih (List.isChain_cons.1 hapart).2 hbehind)

end Template

end BraceTemplate

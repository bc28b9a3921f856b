import Mathlib.Data.List.Forall2
import BraceTemplate.Proofs.Pieces

/-!
# Opening delimiters

There is a tag for every opening delimiter. It is read from a stream that has
the symbols behind the delimiter ahead, and whose end is that of the source even
where the end was looked at before.
-/

namespace BraceTemplate

/-- An opening delimiter and the symbols behind it. -/
structure Opening where
  delimiter : Symbol
  behind : List Symbol

/-- The opening delimiters among symbols, in order. -/
def openings : List Symbol → List Opening
  | [] => []
  | s :: rest => if s.kind.isOpenDelimiter then ⟨s, rest⟩ :: openings rest else openings rest

section Openings
variable {symbols : List Symbol} {o : Opening}

theorem openings_append {front : List Symbol}
    (h : ∀ s ∈ front, s.kind.isOpenDelimiter = false) (rest : List Symbol) :
    openings (front ++ rest) = openings rest := by
  induction front with
  | nil => rfl
  | cons s front ih =>
    have hs := h s List.mem_cons_self
    rw [List.cons_append, openings, hs, if_neg Bool.false_ne_true]
    exact ih fun x hx => h x (List.mem_cons_of_mem s hx)

theorem openings_cons {s : Symbol} (h : s.kind.isOpenDelimiter = true) (rest : List Symbol) :
    openings (s :: rest) = ⟨s, rest⟩ :: openings rest := by
  rw [openings, if_pos h]

theorem isOpenDelimiter_of_mem_openings (h : o ∈ openings symbols) :
    o.delimiter.kind.isOpenDelimiter = true := by
  fun_induction openings symbols with
  | case1 => cases h
  | case2 s rest hopen ih =>
    rcases List.mem_cons.1 h with rfl | h
    · exact hopen
    · exact ih h
  | case3 s rest _ ih => exact ih h

theorem mem_openings {s : Symbol} (before : List Symbol) (h : s.kind.isOpenDelimiter = true)
    (after : List Symbol) : ⟨s, after⟩ ∈ openings (before ++ s :: after) := by
  induction before with
  | nil =>
    rw [List.nil_append, openings_cons h]
    exact List.mem_cons_self
  | cons x before ih =>
    rw [List.cons_append, openings]
    split
    · exact List.mem_cons_of_mem _ ih
    · exact ih

theorem exists_append_of_mem_openings (h : o ∈ openings symbols) :
    ∃ front, symbols = front ++ o.delimiter :: o.behind := by
  fun_induction openings symbols with
  | case1 => cases h
  | case2 s rest _ ih =>
    rcases List.mem_cons.1 h with rfl | h
    · exact ⟨[], rfl⟩
    · obtain ⟨front, rfl⟩ := ih h
      exact ⟨s :: front, rfl⟩
  | case3 s rest _ ih =>
    obtain ⟨front, rfl⟩ := ih h
    exact ⟨s :: front, rfl⟩

end Openings

namespace SymbolStream

/-- End symbols stand at an offset, those taken back and the one to come. -/
structure EndsAt (stop : Nat) (s : SymbolStream) : Prop where
  pushedBack : ∀ x ∈ s.pushedBack, x.isEnd → x.location = .point stop
  scanner : s.scanner.position + Text.byteLength s.scanner.rest = stop

theorem endsAt_ofSource (source : String) :
    EndsAt (Text.byteLength source.toList) (ofSource source) where
  pushedBack _ h := nomatch h
  scanner := Nat.zero_add _

variable {s t : SymbolStream} {stop : Nat}

theorem EndsAt.location_current (h : EndsAt stop s) (hend : s.current.isEnd) :
    s.current.location = .point stop := by
  obtain ⟨pushedBack, scanner⟩ := s
  cases pushedBack with
  | cons symbol symbols => exact h.pushedBack symbol List.mem_cons_self hend
  | nil =>
    have hend' : scanner.current.isEnd = true := hend
    rw [Scanner.isEnd_current] at hend'
    have hscanner : scanner.position + Text.byteLength scanner.rest = stop := h.scanner
    rw [List.isEmpty_iff.1 hend', Text.byteLength_nil, Nat.add_zero] at hscanner
    change scanner.current.location = .point stop
    rw [Scanner.current, if_pos hend', hscanner]
    rfl

theorem EndsAt.advance (h : EndsAt stop s) : EndsAt stop s.advance := by
  obtain ⟨pushedBack, scanner⟩ := s
  cases pushedBack with
  | cons symbol symbols =>
    exact ⟨fun x hx => h.pushedBack x (List.mem_cons_of_mem symbol hx), h.scanner⟩
  | nil =>
    refine ⟨fun x hx => (nomatch hx), ?_⟩
    change scanner.advance.position + Text.byteLength scanner.advance.rest = stop
    by_cases hrest : scanner.rest = []
    · rw [Scanner.advance_of_rest_eq_nil hrest]
      exact h.scanner
    · have hscanner := h.scanner
      change scanner.position + Text.byteLength scanner.rest = stop at hscanner
      rw [← Scanner.nextText_append_rest hrest, Text.byteLength_append,
        ← Nat.add_assoc] at hscanner
      rw [← hscanner, Scanner.advance_of_rest_ne_nil hrest]

theorem EndsAt.takes {taken : List Symbol} (h : EndsAt stop s) (htakes : Takes s taken t) :
    EndsAt stop t := by
  induction htakes with
  | none s => exact h
  | next _ _ ih => exact ih h.advance

/-- Looking for the kind of a tag may take the end back, but not another one. -/
theorem EndsAt.classify {kind : TagKind} (h : EndsAt stop s)
    (hclassify : TagKind.classify s = .ok (kind, t)) : EndsAt stop t := by
  rw [TagKind.classify_eq_ok hclassify]
  refine ⟨?_, h.advance.advance.scanner⟩
  intro x hx hend
  rcases List.mem_cons.1 hx with rfl | hx
  · exact h.location_current hend
  · rcases List.mem_cons.1 hx with rfl | hx
    · exact h.advance.location_current hend
    · exact h.advance.advance.pushedBack x hx hend

end SymbolStream

/-- The kind that is found is told by the symbols behind the delimiter. -/
theorem TagKind.kind_of_classify {s t : SymbolStream} {kind : TagKind}
    (h : classify s = .ok (kind, t)) : kind = Heading.kindOf s.advance.upcoming := by
  have hmarker : (s.advance.readMark .tilde).2.current.kind =
      if s.advance.current.kind = .tilde then s.advance.advance.current.kind
        else s.advance.current.kind := by
    rw [SymbolStream.readMark]
    split <;> rfl
  rw [Heading.kindOf_upcoming, hmarker]
  simp only [classify, bind, Except.bind, pure, Except.pure] at h
  split at h
  · cases h
  · split at h
    · cases h
    · cases h
      rfl

/-- A tag is read from a stream at an opening delimiter. -/
def Tag.ReadAt (stop : Nat) (o : Opening) (tag : Tag) : Prop :=
  ∃ s : SymbolStream, s.EndsAt stop ∧ s.current = o.delimiter ∧ s.advance.upcoming = o.behind ∧
    tag = (Tag.read (Heading.kindOf o.behind) s).1

theorem Tag.exists_readAt_of_mem {stop : Nat} {os : List Opening} {tags : List Tag}
    (h : List.Forall₂ (ReadAt stop) os tags) {tag : Tag} (htag : tag ∈ tags) :
    ∃ o ∈ os, ReadAt stop o tag := by
  induction h with
  | nil => cases htag
  | @cons o first os tags hfirst _ ih =>
    rcases List.mem_cons.1 htag with rfl | htag
    · exact ⟨o, List.mem_cons_self, hfirst⟩
    · obtain ⟨o', ho', hread⟩ := ih htag
      exact ⟨o', List.mem_cons_of_mem o ho', hread⟩

theorem Tag.exists_tag_of_mem {stop : Nat} {os : List Opening} {tags : List Tag}
    (h : List.Forall₂ (ReadAt stop) os tags) {o : Opening} (ho : o ∈ os) :
    ∃ tag ∈ tags, ReadAt stop o tag := by
  induction h with
  | nil => cases ho
  | @cons first tag os tags hfirst _ ih =>
    rcases List.mem_cons.1 ho with rfl | ho
    · exact ⟨tag, List.mem_cons_self, hfirst⟩
    · obtain ⟨tag', htag', hread⟩ := ih ho
      exact ⟨tag', List.mem_cons_of_mem tag htag', hread⟩

namespace Piece

open SymbolStream

/-- The tags among the pieces are read at the opening delimiters, one at each. -/
theorem readAll_readAt {s rest : SymbolStream} {pieces : List Piece} {stop : Nat}
    (h : readAll s = .ok (pieces, rest)) (hends : s.EndsAt stop) :
    List.Forall₂ (Tag.ReadAt stop) (openings s.upcoming) (pieces.filterMap tag?) := by
  fun_induction readAll s generalizing pieces rest with
  | case1 s front =>
    rename_i hend
    have hpieces : (readText s).1 = pieces := congrArg Prod.fst (Except.ok.inj h)
    rw [← hpieces, tags_readText, (readText_takes s).upcoming, upcoming_of_isEnd hend,
      openings_append fun _ => isOpenDelimiter_of_mem_takeText]
    exact .nil
  | case2 => cases h
  | case3 => cases h
  | case4 s front hend first t htag pieces' rest' hrest =>
    rename_i ih
    cases h
    rw [readTag] at htag
    split at htag
    · cases htag
    · rename_i kind u hclassify
      have hread : Tag.read kind u = (first, t) := by simpa using htag
      have hcurrent := TagKind.current_of_classify hclassify
      have hopen : u.current.kind.isOpenDelimiter = true := by
        rw [hcurrent]
        exact current_readText hend
      have hfront : (readText s).2.EndsAt stop := hends.takes (readText_takes s)
      have hahead := TagKind.upcoming_of_classify hclassify
      have hnotEnd := Symbol.not_isEnd_of_isOpenDelimiter hopen
      have hbehind : front.2.advance.upcoming = u.advance.upcoming := by
        rw [upcoming_of_not_isEnd hend, upcoming_of_not_isEnd hnotEnd] at hahead
        exact (List.cons.inj hahead).2.symm
      have hkind : kind = Heading.kindOf u.advance.upcoming := by
        rw [TagKind.kind_of_classify hclassify, hbehind]
      have htakes := (Tag.read_takes kind hopen).1
      -- the tag takes its extent, in which nothing opens, so the later delimiters are behind it
      have hlater : openings u.advance.upcoming = openings t.upcoming := by
        have hsplit := Tag.upcoming_advance hopen kind
        rw [hread] at hsplit
        exact (congrArg openings hsplit).trans
          (openings_append (fun _ => Tag.isOpenDelimiter_of_mem_extent) _)
      rw [hread] at htakes
      have hu := hfront.classify hclassify
      rw [(readText_takes s).upcoming, openings_append (fun _ => isOpenDelimiter_of_mem_takeText),
        ← hahead, upcoming_of_not_isEnd hnotEnd, openings_cons hopen, List.filterMap_append,
        tags_readText, List.nil_append]
      refine .cons ⟨u, hu, rfl, rfl, ?_⟩ ?_
      · rw [← hkind, hread]
      · rw [hlater]
        exact ih hrest (hu.takes htakes)

/-- A source is cut into pieces, and the tags among them are read at its opening
delimiters. -/
theorem readAll_ofSource (source : String) :
    ∃ pieces rest, readAll (.ofSource source) = .ok (pieces, rest) ∧
      Cut (.ofSource source) pieces rest ∧
      List.Forall₂ (Tag.ReadAt (Text.byteLength source.toList)) (openings (symbols source))
        (pieces.filterMap tag?) := by
  obtain ⟨pieces, rest, hread, hcut, -⟩ := readAll_cut (s := .ofSource source) (Nat.zero_le _)
  have htags := readAll_readAt hread (endsAt_ofSource source)
  rw [upcoming_ofSource] at htags
  exact ⟨pieces, rest, hread, hcut, htags⟩

end Piece

end BraceTemplate

import BraceTemplate.Proofs.Tag.Heading

/-!
# The markup of a tag

How the spans of a tag begin and which of them holds its name: the opening
delimiter, a `~` perhaps, the mark of its kind, and then the name, which no
other span repeats. A tag without a name has no span for one.
-/

namespace BraceTemplate

namespace Span

def IsMarkup (text : String) (s : Span) : Prop := s.kind = .metaCode ∧ s.content = text

/-- The span is an opening delimiter. -/
def IsOpening (s : Span) : Prop := s.IsMarkup "\x7b\x7b" ∨ s.IsMarkup "\x7b\x7b\x7b"

/-- Spans begin with an opening delimiter, a `~` perhaps, and a mark. -/
def BeginWith (mark : String) (spans : List Span) : Prop :=
  ∃ delimiter tilde marker rest, spans = delimiter :: (tilde ++ marker :: rest) ∧
    delimiter.IsOpening ∧ (tilde = [] ∨ ∃ s, tilde = [s] ∧ s.IsMarkup "~") ∧
    marker.IsMarkup mark

/-- The only span for a name holds the given name; an empty one has no span. -/
def Name (name : String) (spans : List Span) : Prop :=
  (spans.filter (·.kind == .expression)).map content = if name = "" then [] else [name]

theorem cover?_singleton (kind : SpanKind) {s : Symbol} (h : s.text ≠ "") :
    cover? kind [s] = some ⟨kind, s.text, s.location⟩ := by
  have hjoin : Symbol.joinTexts [s] = s.text := by simp [Symbol.joinTexts]
  rw [cover?, hjoin, if_neg (by simpa using h)]
  rfl

theorem name_cover? (group : List Symbol) :
    Name (Symbol.joinTexts group) (cover? .expression group).toList := by
  rw [Name]
  cases group with
  | nil => rfl
  | cons s group =>
    by_cases h : Symbol.joinTexts (s :: group) = ""
    · rw [cover?, h]
      rfl
    · rw [if_neg h, cover?, if_neg (by simpa using h)]
      rfl

/-- Spans of other kinds around the name do not matter. -/
theorem Name.around {name : String} {spans before after : List Span} (h : Name name spans)
    (hbefore : ∀ s ∈ before, s.kind ≠ .expression) (hafter : ∀ s ∈ after, s.kind ≠ .expression) :
    Name name (before ++ spans ++ after) := by
  have hnone : ∀ others : List Span, (∀ s ∈ others, s.kind ≠ .expression) →
      others.filter (·.kind == .expression) = [] := by
    intro others hothers
    rw [List.filter_eq_nil_iff]
    intro s hs hkind
    exact hothers s hs (beq_iff_eq.1 hkind)
  rw [Name, List.filter_append, List.filter_append, hnone before hbefore, hnone after hafter,
    List.nil_append, List.append_nil]
  exact h

end Span

namespace Symbol

/-- The symbol has the text of its kind, where the kind has only one. -/
def Spelled (s : Symbol) : Prop := ∀ text, s.kind.spelling? = some text → s.text = text

/-- The span of a symbol whose kind has only one text. -/
theorem Spelled.cover? {s : Symbol} (h : s.Spelled) {text : String}
    (hkind : s.kind.spelling? = some text) (hne : text ≠ "") (kind : SpanKind) :
    Span.cover? kind [s] = some ⟨kind, text, s.location⟩ := by
  have htext := h text hkind
  rw [Span.cover?_singleton kind (by rw [htext]; exact hne), htext]

end Symbol

theorem spelled_of_mem_symbols {source : String} {s : Symbol} (h : s ∈ symbols source) :
    s.Spelled := fun _ hkind => Scanner.text_of_spelling? h hkind

namespace SymbolStream

theorem current_mem_upcoming {s : SymbolStream} (hend : ¬ s.current.isEnd) :
    s.current ∈ s.upcoming := by
  rw [upcoming_of_not_isEnd hend]
  exact List.mem_cons_self

/-- A mark that is current is read as a span with its text. -/
theorem readMark_of_eq {kind : SymbolKind} {s : SymbolStream} {text : String}
    (h : s.current.kind = kind) (hspelled : s.current.Spelled)
    (hkind : kind.spelling? = some text) (hne : text ≠ "") :
    s.readMark kind = ([⟨.metaCode, text, s.current.location⟩], s.advance) := by
  rw [readMark, if_pos h, hspelled.cover? (by rw [h]; exact hkind) hne]
  rfl

/-- At most one `~` is read, as a span of its own. -/
theorem readMark_tilde {s : SymbolStream} (hspelled : ∀ x ∈ s.upcoming, x.Spelled) :
    (s.readMark .tilde).1 = [] ∨
      ∃ t : Span, (s.readMark .tilde).1 = [t] ∧ t.IsMarkup "~" := by
  by_cases h : s.current.kind = .tilde
  · have hend : ¬ s.current.isEnd := by simp [Symbol.isEnd, h]
    rw [readMark_of_eq h (hspelled _ (current_mem_upcoming hend)) rfl (by simp)]
    exact .inr ⟨_, rfl, rfl, rfl⟩
  · rw [readMark_of_ne h]
    exact .inl rfl

end SymbolStream

namespace Tag

open SymbolStream

/-- How the spans of a tag stand to its kind and name. -/
structure Formed (tag : Tag) : Prop where
  opening : ∃ delimiter rest, tag.spans = delimiter :: rest ∧ delimiter.IsOpening
  named : Span.Name tag.name tag.spans
  blockOpen : tag.kind = .blockOpen → Span.BeginWith "#" tag.spans
  blockClose : tag.kind = .blockClose → Span.BeginWith "/" tag.spans

theorem Formed.spans_ne_nil {tag : Tag} (h : tag.Formed) : tag.spans ≠ [] := by
  obtain ⟨delimiter, rest, hspans, -⟩ := h.opening
  rw [hspans]
  exact List.cons_ne_nil _ _

theorem name_readBody (kind : TagKind) (s : SymbolStream) :
    Span.Name (readBody kind s).name (readBody kind s).spans := by
  have hnamed : Span.Name (readNamed s).name (readNamed s).spans := by
    refine @Span.Name.around _ _ [] _ (Span.name_cover? _) (fun _ h => nomatch h) ?_
    intro span hspan
    rcases kind_of_mem_readArguments hspan with h | h | h <;> rw [h] <;> simp
  cases kind with
  | comment =>
    change Span.Name "" (Span.cover? .comment _).toList
    rw [Span.Name, List.filter_eq_nil_iff.2]
    · rfl
    · intro span hspan
      rw [Span.kind_of_mem_cover? hspan]
      simp
  | _ => exact hnamed

theorem kind_of_mem_readMarker {kind : TagKind} {s : SymbolStream} {span : Span}
    (h : span ∈ (readMarker kind s).1) : span.kind = .metaCode := by
  cases kind with
  | expression => cases h
  | _ => exact kind_of_mem_readMark h

theorem name_spans_read (kind : TagKind) (s : SymbolStream) :
    Span.Name (read kind s).1.name (read kind s).1.spans := by
  refine (name_readBody kind _).around ?_ ?_
  · intro span hspan
    have hkind : span.kind = .metaCode := by
      rcases List.mem_append.1 hspan with h | h
      · rcases List.mem_append.1 h with h | h
        · exact Span.kind_of_mem_cover? h
        · exact kind_of_mem_readMark h
      · exact kind_of_mem_readMarker h
    rw [hkind]
    simp
  · intro span hspan
    rcases kind_of_mem_readEnding hspan with h | h | h | h <;> rw [h] <;> simp

theorem cover?_opening {s : Symbol} (hopen : s.kind.isOpenDelimiter) (hspelled : s.Spelled) :
    ∃ delimiter, Span.cover? .metaCode [s] = some delimiter ∧ delimiter.IsOpening := by
  obtain ⟨kind, location, text⟩ := s
  cases kind with
  | openDelimiter => exact ⟨_, hspelled.cover? rfl (by simp) _, .inl ⟨rfl, rfl⟩⟩
  | rawOpenDelimiter => exact ⟨_, hspelled.cover? rfl (by simp) _, .inr ⟨rfl, rfl⟩⟩
  | _ => cases hopen

/-- A tag of a kind that was told by the symbols ahead is formed as its kind
and name say. -/
theorem formed_read {kind : TagKind} {s : SymbolStream}
    (hopen : s.current.kind.isOpenDelimiter) (hspelled : ∀ x ∈ s.upcoming, x.Spelled)
    (hkind : kind = Heading.kindOf s.advance.upcoming) : (read kind s).1.Formed := by
  have hend := Symbol.not_isEnd_of_isOpenDelimiter hopen
  have hbehind : ∀ x ∈ s.advance.upcoming, x.Spelled := fun x hx =>
    hspelled x (by rw [upcoming_of_not_isEnd hend]; exact List.mem_cons_of_mem _ hx)
  obtain ⟨delimiter, hdelimiter, hopening⟩ :=
    cover?_opening hopen (hspelled _ (current_mem_upcoming hend))
  have hspans : (read kind s).1.spans =
      delimiter :: ((s.advance.readMark .tilde).1 ++
        ((readMarker kind (s.advance.readMark .tilde).2).1 ++
          ((readBody kind (readMarker kind (s.advance.readMark .tilde).2).2).spans ++
            (readEnding s.current.kind.isRaw false
              (readBody kind (readMarker kind (s.advance.readMark .tilde).2).2).rest).spans))) := by
    simp only [read, hdelimiter, Option.toList_some, List.append_assoc, List.cons_append,
      List.nil_append]
  have hbegin : ∀ marker text, (s.advance.readMark .tilde).2.current.kind = marker →
      marker.spelling? = some text → text ≠ "" → marker ≠ .eof →
      readMarker kind (s.advance.readMark .tilde).2 =
        (s.advance.readMark .tilde).2.readMark marker →
      Span.BeginWith text (read kind s).1.spans := by
    intro marker text hmarker hspelling hne heof hread
    have hmem : (s.advance.readMark .tilde).2.current ∈ s.advance.upcoming := by
      have hsuffix := @readMark_suffix .tilde s.advance (by simp)
      refine hsuffix.subset (current_mem_upcoming ?_)
      simpa [Symbol.isEnd, hmarker] using heof
    rw [hspans, hread, readMark_of_eq hmarker (hbehind _ hmem) hspelling hne]
    exact ⟨delimiter, _, _, _, rfl, hopening, readMark_tilde hbehind, rfl, rfl⟩
  rw [Heading.kindOf_upcoming] at hkind
  obtain ⟨hhash, hslash, -⟩ :=
    @TagKind.current_kind_of_ofMarker (s.advance.readMark .tilde).2.current.kind
  refine ⟨⟨delimiter, _, hspans, hopening⟩, name_spans_read kind s, ?_, ?_⟩
  · intro hblock
    have hk : kind = .blockOpen := hblock
    exact hbegin .hash "#" (hhash (hkind.symm.trans hk)) rfl (by simp) (by simp) (by rw [hk]; rfl)
  · intro hblock
    have hk : kind = .blockClose := hblock
    exact hbegin .slash "/" (hslash (hkind.symm.trans hk)) rfl (by simp) (by simp)
      (by rw [hk]; rfl)

end Tag

end BraceTemplate

import BraceTemplate.Proofs.Builder.Located
import BraceTemplate.Proofs.Rendering
import BraceTemplate.Proofs.Tag.Places

/-!
# Parses and their reports

All that a parse points at stands in its source. A report is drawn by characters
where diagnostics count bytes, and without a line behind the last line break. So
whatever the renderer, the report points at the place of its diagnostic just
where these do not differ.
-/

namespace BraceTemplate

namespace Diagnostic

/-- In front of the diagnostic are single bytes only, and it does not stand behind
a line break at the end of the source. -/
structure Plain (source : String) (d : Diagnostic) : Prop where
  narrow : ∀ before after, source.toList = before ++ after →
    d.location.start = Text.byteLength before → ∀ c ∈ before, c.utf8Size = 1
  inLine : source.toList.getLast? = some '\n' → d.location.start ≠ Text.byteLength source.toList

/-- The labels stop at no more than the number of characters. -/
def Fits (source : String) (d : Diagnostic) : Prop :=
  ∀ label ∈ Report.labelsOf d, label.location.stop ≤ source.toList.length

/-- All labels start beyond the number of characters. -/
def Beyond (source : String) (d : Diagnostic) : Prop :=
  ∀ label ∈ Report.labelsOf d, source.toList.length < label.location.start

/-- The drawing keeps all labels of the report and its help, and its place is the
position of the diagnostic. -/
structure PointedOut (renderer : Renderer) (filename source : String) (d : Diagnostic) :
    Prop where
  labels : (d.render renderer filename source).labels.Perm (Report.ofDiagnostic d).labels
  place : ∃ q, d.location.position? source = some q ∧
    (d.render renderer filename source).place = some (Excerpt.placeText filename q)
  help : (d.render renderer filename source).help = (Report.ofDiagnostic d).help

/-- Of the report only its headline is left. -/
structure LeftOut (renderer : Renderer) (filename source : String) (d : Diagnostic) :
    Prop where
  labels : (d.render renderer filename source).labels = []
  place : (d.render renderer filename source).place = none
  help : (d.render renderer filename source).help = none

end Diagnostic

theorem Report.labelsOf_eq_cons (d : Diagnostic) :
    ∃ label more, Report.labelsOf d = label :: more ∧ label.location = d.location := by
  obtain ⟨problem, location⟩ := d
  cases problem <;> exact ⟨_, _, rfl, rfl⟩

namespace Diagnostic

variable {source filename : String} {renderer : Renderer} {d : Diagnostic}

theorem plain_iff {before rest : List Char} (hsource : source.toList = before ++ rest)
    (hstart : d.location.start = Text.byteLength before) :
    d.Plain source ↔
      (∀ c ∈ before, c.utf8Size = 1) ∧ ¬ (rest = [] ∧ before.getLast? = some '\n') := by
  constructor
  · intro h
    refine ⟨h.narrow before rest hsource hstart, ?_⟩
    rintro ⟨rfl, hlast⟩
    rw [List.append_nil] at hsource
    exact h.inLine (by rw [hsource, hlast]) (by rw [hsource, hstart])
  · rintro ⟨hnarrow, hend⟩
    constructor
    · intro front after hfront hlength
      have hsplit := Text.splitAt?_append before rest
      rw [← hsource, hfront, ← hstart, hlength, Text.splitAt?_append] at hsplit
      cases hsplit
      exact hnarrow
    · intro hlast heq
      rw [hsource, hstart, Text.byteLength_append] at heq
      have hnil : rest = [] := by
        by_contra hne
        have hpos := Text.byteLength_pos hne
        omega
      rw [hsource, hnil, List.append_nil] at hlast
      exact hend ⟨hnil, hlast⟩

/-- The position of a diagnostic is that of as many characters as there are bytes
in front of it just where these do not differ. -/
theorem numbers_iff {q : Position} (hwithin : d.location.Within source)
    (hq : d.location.position? source = some q) :
    q.Numbers source.toList d.location.start ↔ d.Plain source := by
  obtain ⟨before, rest, hsource, hstart, rfl⟩ :=
    (Location.position?_eq_some_iff hwithin.start.le).1 hq
  rw [plain_iff hsource hstart, hsource, hstart]
  exact Position.numbers_after_iff

theorem exists_position (hwithin : d.location.Within source) :
    ∃ q, d.location.position? source = some q :=
  Option.isSome_iff_exists.1 hwithin.readable.position

theorem Located.location (h : d.Located (Location.Within source)) :
    d.location.Within source := by
  obtain ⟨label, more, hlabels, hlabel⟩ := Report.labelsOf_eq_cons d
  rw [← hlabel]
  exact h label (by rw [hlabels]; exact List.mem_cons_self)

/-- The drawing of a diagnostic within the source is as relied on. -/
theorem Located.drawn (h : d.Located (Location.Within source))
    (hrenderer : renderer.Lawful source) (filename : String) :
    (Report.ofDiagnostic d).Drawn filename source (d.render renderer filename source) :=
  hrenderer (Report.ofDiagnostic d) filename fun label hmem => (h label hmem).le

theorem Plain.pointedOut (h : d.Plain source) (hfits : d.Fits source)
    (hlocated : d.Located (Location.Within source)) (hrenderer : renderer.Lawful source)
    (filename : String) : d.PointedOut renderer filename source := by
  have hdrawn := hlocated.drawn hrenderer filename
  have hkept : (Report.ofDiagnostic d).labels.filter (·.stopsBy source.toList.length) =
      (Report.ofDiagnostic d).labels := by
    rw [List.filter_eq_self]
    intro label hmem
    exact decide_eq_true (hfits label hmem)
  have hall := hdrawn.kept
  rw [hkept] at hall
  have hperm : (d.render renderer filename source).labels.Perm (Report.labelsOf d) :=
    (hdrawn.dropped.trans List.filter_sublist.subperm).antisymm hall
  have hne : (d.render renderer filename source).labels ≠ [] := by
    obtain ⟨label, more, hlabels, -⟩ := Report.labelsOf_eq_cons d
    intro hnil
    rw [hnil, hlabels] at hperm
    exact List.cons_ne_nil _ _ hperm.nil_eq.symm
  obtain ⟨q, hq⟩ := exists_position hlocated.location
  exact ⟨hperm,
    ⟨q, hq, hdrawn.place hne q ((numbers_iff hlocated.location hq).2 h)⟩, hdrawn.help hne⟩

/-- Nothing else is pointed out. -/
theorem PointedOut.plain (h : d.PointedOut renderer filename source)
    (hlocated : d.Located (Location.Within source)) (hrenderer : renderer.Lawful source) :
    d.Plain source := by
  have hdrawn := hlocated.drawn hrenderer filename
  obtain ⟨hperm, ⟨q, hq, hplace⟩, -⟩ := h
  obtain ⟨label, more, hlabels, hlabel⟩ := Report.labelsOf_eq_cons d
  have hmem : label ∈ (d.render renderer filename source).labels := by
    refine hperm.mem_iff.2 ?_
    change label ∈ Report.labelsOf d
    rw [hlabels]
    exact List.mem_cons_self
  have hstart := (List.mem_filter.1 (hdrawn.dropped.subset hmem)).2
  rw [decide_eq_true_eq, hlabel] at hstart
  obtain ⟨p, hp⟩ := Position.exists_numbers hstart
  have hshown := hdrawn.place (List.ne_nil_of_mem hmem) p hp
  have heq : p = q := Excerpt.placeText_inj (Option.some.inj (hshown.symm.trans hplace))
  rw [heq] at hp
  exact (numbers_iff hlocated.location hq).1 hp

theorem Beyond.leftOut (h : d.Beyond source) (hlocated : d.Located (Location.Within source))
    (hrenderer : renderer.Lawful source) (filename : String) :
    d.LeftOut renderer filename source := by
  have hdrawn := hlocated.drawn hrenderer filename
  obtain ⟨hplace, hhelp⟩ := hdrawn.nothing h
  refine ⟨?_, hplace, hhelp⟩
  by_contra hne
  obtain ⟨label, hlabel⟩ := List.exists_mem_of_ne_nil _ hne
  obtain ⟨hmem, hstart⟩ := List.mem_filter.1 (hdrawn.dropped.subset hlabel)
  have hbeyond := h label hmem
  rw [decide_eq_true_eq] at hstart
  omega

end Diagnostic

/-- All labels of the reports of a parse stand within the source. -/
theorem parse_located (source : String) (options : Options) :
    ∃ p, parse source options = .ok p ∧
      ∀ d ∈ p.diagnostics, d.Located (Location.Within source) := by
  obtain ⟨pieces, rest, hread, hcut, htags⟩ := Piece.readAll_ofSource source
  obtain ⟨block, outer, ds, -, hplaced, hparse⟩ := parse_of_readAll hread options
  have hpieces : ∀ tag, .tag tag ∈ pieces → tag.Located (Location.Within source) := by
    intro tag hmem
    obtain ⟨o, ho, hreadAt⟩ :=
      Tag.exists_readAt_of_mem htags (List.mem_filterMap.2 ⟨.tag tag, hmem, rfl⟩)
    have hwithin := hreadAt.within ho
    refine ⟨hwithin.nameAt, hwithin.markup, fun d hd => Diagnostic.located_iff.2 ?_⟩
    rw [Problem.openedAt?_of_isTagLevel ((hcut.formed_ofSource hmem).2 d hd)]
    exact ⟨hwithin.problems d hd, nofun⟩
  have hlocated : Builder.Located (Location.Within source) ⟨block :: outer, ds⟩ :=
    hplaced.located hpieces ⟨trivial, fun d hd => (nomatch hd)⟩
  exact ⟨_, hparse, hlocated.closeAll _⟩

theorem diagnostics_of_parse {source : String} {options : Options} {p : Parse}
    {ds : List Diagnostic} (hparse : parse source options = .ok p)
    (h : (parse source options).toOption.map Parse.diagnostics = some ds) :
    p.diagnostics = ds := by
  rw [hparse] at h
  exact Option.some.inj h

theorem exists_diagnostic {source : String} {options : Options} {d : Diagnostic}
    (h : (parse source options).toOption.map Parse.diagnostics = some [d]) :
    ∃ p, parse source options = .ok p ∧ d ∈ p.diagnostics ∧
      d.Located (Location.Within source) := by
  obtain ⟨p, hparse, hlocated⟩ := parse_located source options
  have hmem : d ∈ p.diagnostics := by
    rw [diagnostics_of_parse hparse h]
    exact List.mem_singleton_self d
  exact ⟨p, hparse, hmem, hlocated d hmem⟩

/-- Under every renderer that is as relied on, the reports of a parse point at
their diagnostics where these are plain and the labels fit, and at none that is
not plain. Nothing is left of a report with all its labels beyond. -/
theorem parse_reports (renderer : Renderer) (source : String) (options : Options)
    (h : renderer.Lawful source) :
    ∃ p, parse source options = .ok p ∧ ∀ d ∈ p.diagnostics, ∀ filename,
      (d.Plain source → d.Fits source → d.PointedOut renderer filename source) ∧
        (d.PointedOut renderer filename source → d.Plain source) ∧
        (d.Beyond source → d.LeftOut renderer filename source) := by
  obtain ⟨p, hparse, hlocated⟩ := parse_located source options
  refine ⟨p, hparse, ?_⟩
  intro d hd filename
  have hd := hlocated d hd
  exact ⟨fun hplain hfits => hplain.pointedOut hfits hd h filename,
    fun hpointed => hpointed.plain hd h, fun hbeyond => hbeyond.leftOut hd h filename⟩

/-- A wrong name on the second line is pointed out, with a wide character in it. -/
theorem parse_reports_unbalanced :
    let source := "x\n\x7b\x7b#a\x7d\x7d\x7b\x7b/é\x7d\x7d"
    ∃ p, parse source {} = .ok p ∧
      p.diagnostics = [⟨.unbalancedTag "a" "é" (some ⟨2, 8⟩), ⟨11, 13⟩⟩] ∧
      Renderer.Lawful Report.excerpt source ∧ ∀ d ∈ p.diagnostics,
        d.Plain source ∧ d.Fits source ∧ d.PointedOut Report.excerpt "page.hbs" source := by
  intro source
  have hlawful := Report.excerpt_lawful source
  obtain ⟨p, hparse, hreports⟩ := parse_reports Report.excerpt source {} hlawful
  have hdiagnostics :
      p.diagnostics = [⟨.unbalancedTag "a" "é" (some ⟨2, 8⟩), ⟨11, 13⟩⟩] :=
    diagnostics_of_parse hparse (by decide +kernel)
  refine ⟨p, hparse, hdiagnostics, hlawful, ?_⟩
  intro d hmem
  obtain ⟨hpointed, -⟩ := hreports d hmem "page.hbs"
  rw [hdiagnostics, List.mem_singleton] at hmem
  subst hmem
  have hnarrow : ∀ c ∈ "x\n\x7b\x7b#a\x7d\x7d\x7b\x7b/".toList, c.utf8Size = 1 :=
    Text.byteLength_le_length_iff.1 (by decide +kernel)
  have hplain := (@Diagnostic.plain_iff source
    ⟨.unbalancedTag "a" "é" (some ⟨2, 8⟩), ⟨11, 13⟩⟩ _ "é\x7d\x7d".toList
    (by decide +kernel) (by decide +kernel)).2 ⟨hnarrow, by decide +kernel⟩
  have hfits : Diagnostic.Fits source
      ⟨.unbalancedTag "a" "é" (some ⟨2, 8⟩), ⟨11, 13⟩⟩ := by
    change ∀ label ∈ [_, _], _
    decide +kernel
  exact ⟨hplain, hfits, hpointed hplain hfits⟩

/-- Behind wide characters no lawful renderer points a diagnostic out, nor where it
stands behind a line break at the end. -/
theorem parse_reports_elsewhere :
    (let source := "éé\x7b\x7b#a\x7d\x7d"
      ∃ p d, parse source {} = .ok p ∧ d ∈ p.diagnostics ∧
        d.location.position? source = some ⟨1, 3⟩ ∧
        Renderer.Lawful Report.excerpt source ∧
        (d.excerpt "page.hbs" source).labels = [] ∧
        (d.excerpt "page.hbs" source).place = none ∧
        ∀ renderer, Renderer.Lawful renderer source → ∀ filename,
          ¬ d.PointedOut renderer filename source) ∧
    (let source := "\x7b\x7ba\n"
      ∃ p d, parse source {} = .ok p ∧ d ∈ p.diagnostics ∧
        d.location.position? source = some ⟨2, 1⟩ ∧
        Renderer.Lawful Report.excerpt source ∧
        (d.excerpt "page.hbs" source).place = some "page.hbs:1:5" ∧
        ∀ renderer, Renderer.Lawful renderer source → ∀ filename,
          ¬ d.PointedOut renderer filename source) := by
  constructor
  · intro source
    obtain ⟨p, hparse, hmem, hlocated⟩ := @exists_diagnostic source {}
      ⟨.unclosedBlock "a", ⟨4, 10⟩⟩ (by decide +kernel)
    refine ⟨p, _, hparse, hmem, by decide +kernel, Report.excerpt_lawful source,
      by decide +kernel, by decide +kernel, ?_⟩
    intro renderer hrenderer filename hpointed
    have hplain := hpointed.plain hlocated hrenderer
    have hnarrow := hplain.narrow "éé".toList "\x7b\x7b#a\x7d\x7d".toList
      (by decide +kernel) (by decide +kernel)
    exact absurd (hnarrow 'é' (by decide +kernel)) (by decide +kernel)
  · intro source
    obtain ⟨p, hparse, hmem, hlocated⟩ := @exists_diagnostic source {}
      ⟨.unclosedTag, ⟨4, 4⟩⟩ (by decide +kernel)
    refine ⟨p, _, hparse, hmem, by decide +kernel, Report.excerpt_lawful source,
      by decide +kernel, ?_⟩
    intro renderer hrenderer filename hpointed
    have hplain := hpointed.plain hlocated hrenderer
    exact hplain.inLine (by decide +kernel) (by decide +kernel)

end BraceTemplate

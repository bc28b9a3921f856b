import BraceTemplate.Proofs.Builder.Scoped
import BraceTemplate.Proofs.Parse.Phased
import BraceTemplate.Proofs.Tag.Passes

/-!
# Reading woven with placing

Each span of a tag may be added to the builder as soon as its symbols are taken
off the stream, and each problem told when it is met, inside the blocks that the
tag works in. What is taken depends on the stream alone, so only the placing goes
step by step here. It comes to the same as to read a tag whole and place it then,
and so do the loops over arguments and at the end of a tag, tags and content.
-/

namespace BraceTemplate

open Builder (Steps)
open Builder.Steps

namespace Builder.Steps

/-- Adds a span, if there is one. -/
def write (span? : Option Span) : Steps Unit :=
  match span? with
  | none => pure ()
  | some span => changeCurrent (·.push (.span span))

/-- Tells a problem for which there is no excuse. -/
def reportUnless (excused : Bool) (d : Diagnostic) : Steps Unit :=
  if excused then pure () else report d

theorem writes_write (span? : Option Span) : Writes (write span?) span?.toList [] := by
  cases span? with
  | none => exact writes_nothing
  | some span => exact writes_span span

theorem writes_reportUnless (excused : Bool) (d : Diagnostic) :
    Writes (reportUnless excused d) [] (if excused then [] else [d]) := by
  cases excused with
  | true => exact writes_nothing
  | false => exact writes_report d

end Builder.Steps

namespace SymbolStream

def weaveMark (kind : SymbolKind) (s : SymbolStream) : Steps Unit :=
  if s.current.kind = kind then write (Span.cover? .metaCode [s.current]) else pure ()

def weaveArguments (s : SymbolStream) : Steps Unit := do
  write (Span.cover? .whiteSpace s.takeBlanks.1)
  if _h : endsArguments s.takeBlanks.2.current.kind then pure ()
  else
    write s.takeBlanks.2.readArgument.1
    weaveArguments s.takeBlanks.2.readArgument.2
termination_by s.upcoming.length
decreasing_by exact length_readArgument_lt _h

/-- A closing delimiter that does not match is told before it is added. -/
def weaveDelimiter (raw : Bool) (s : SymbolStream) : Steps Unit := do
  reportUnless (raw == s.current.kind.isRaw) ⟨.mismatchedDelimiter, s.current.location⟩
  write (Span.cover? .metaCode [s.current])

def weaveEnding (raw reported : Bool) (s : SymbolStream) : Steps Unit := do
  weaveMark .tilde s
  let tilde := (s.readMark .tilde).2
  if _hclose : tilde.current.kind.isCloseDelimiter then weaveDelimiter raw tilde
  else if _hunclosed : leavesUnclosed tilde.current.kind then
    report ⟨.unclosedTag, tilde.current.location⟩
  else
    reportUnless reported ⟨.unexpectedSymbol, tilde.current.location⟩
    weaveArguments tilde
    weaveEnding raw true tilde.readArguments.2
termination_by s.upcoming.length
decreasing_by exact length_readArguments_readMark_lt _hclose _hunclosed

theorem writes_weaveMark (kind : SymbolKind) (s : SymbolStream) :
    Writes (weaveMark kind s) (s.readMark kind).1 [] := by
  by_cases h : s.current.kind = kind
  · rw [weaveMark, if_pos h, readMark, if_pos h]
    exact writes_write _
  · rw [weaveMark, if_neg h, readMark_of_ne h]
    exact writes_nothing

theorem writes_weaveArguments (s : SymbolStream) :
    Writes (weaveArguments s) s.readArguments.1 [] := by
  induction s using readArguments.induct with
  | case1 s _ hends =>
    have hblanks := (writes_write (Span.cover? .whiteSpace s.takeBlanks.1)).then writes_nothing
    rw [List.append_nil] at hblanks
    rw [weaveArguments, readArguments_of_ends hends, dif_pos hends]
    exact hblanks
  | case2 s _ hends _ ih =>
    have hblanks := writes_write (Span.cover? .whiteSpace s.takeBlanks.1)
    have hmore := hblanks.then ((writes_write s.takeBlanks.2.readArgument.1).then ih)
    rw [← List.append_assoc] at hmore
    rw [weaveArguments, readArguments, dif_neg hends, dif_neg hends]
    exact hmore

theorem writes_weaveDelimiter (raw : Bool) (s : SymbolStream) :
    Writes (weaveDelimiter raw s) (s.readDelimiter raw).spans (s.readDelimiter raw).problems := by
  have hdelimiter := (writes_reportUnless (raw == s.current.kind.isRaw)
    ⟨.mismatchedDelimiter, s.current.location⟩).then
      (writes_write (Span.cover? .metaCode [s.current]))
  simp only [List.nil_append, List.append_nil, beq_iff_eq] at hdelimiter
  exact hdelimiter

theorem writes_weaveEnding (raw reported : Bool) (s : SymbolStream) :
    Writes (weaveEnding raw reported s) (readEnding raw reported s).spans
      (readEnding raw reported s).problems := by
  induction reported, s using readEnding.induct raw with
  | case1 reported s _ _ hclose =>
    rw [weaveEnding, readEnding, dif_pos hclose, dif_pos hclose]
    exact (writes_weaveMark .tilde s).then (writes_weaveDelimiter raw _)
  | case2 reported s _ _ hclose hunclosed =>
    have hmark := (writes_weaveMark .tilde s).then
      (writes_report ⟨.unclosedTag, (s.readMark .tilde).2.current.location⟩)
    rw [List.append_nil] at hmark
    rw [weaveEnding, readEnding, dif_neg hclose, dif_neg hclose, dif_pos hunclosed,
      dif_pos hunclosed]
    exact hmark
  | case3 reported s _ _ hclose hunclosed _ ih =>
    have hstray := writes_reportUnless reported
      ⟨.unexpectedSymbol, (s.readMark .tilde).2.current.location⟩
    have hmore := (writes_weaveMark .tilde s).then
      (hstray.then ((writes_weaveArguments (s.readMark .tilde).2).then ih))
    rw [List.nil_append, List.nil_append, ← List.append_assoc] at hmore
    rw [weaveEnding, readEnding, dif_neg hclose, dif_neg hclose, dif_neg hunclosed,
      dif_neg hunclosed]
    exact hmore

end SymbolStream

namespace Tag

def weaveMarker (kind : TagKind) (s : SymbolStream) : Steps Unit :=
  match kind with
  | .blockOpen => s.weaveMark .hash
  | .blockClose => s.weaveMark .slash
  | .comment => s.weaveMark .bang
  | .expression => pure ()

/-- The name of a tag, or the text of a comment. -/
def nameSpan? (kind : TagKind) (s : SymbolStream) : Option Span :=
  match kind with
  | .comment => Span.cover? .comment (s.takeWhile (· == .comment)).1
  | _ => Span.cover? .expression s.takeRun.1

/-- What follows the name in front of the end. A comment has no arguments. -/
def weaveArguments (kind : TagKind) (s : SymbolStream) : Steps Unit :=
  match kind with
  | .comment => pure ()
  | _ => s.takeRun.2.weaveArguments

/-- A tag up to its name. -/
def weaveFront (kind : TagKind) (s : SymbolStream) : Steps Unit := do
  write (Span.cover? .metaCode [s.current])
  s.advance.weaveMark .tilde
  weaveMarker kind (s.advance.readMark .tilde).2
  write (nameSpan? kind (afterMarks kind s))

/-- A tag behind its name. -/
def weaveBack (kind : TagKind) (s : SymbolStream) : Steps Unit := do
  weaveArguments kind (afterMarks kind s)
  (readBody kind (afterMarks kind s)).rest.weaveEnding s.current.kind.isRaw false

/-- A tag of a known kind whose opening delimiter is current. -/
def weave (options : Options) (kind : TagKind) (s : SymbolStream) : Steps Unit :=
  let body := readBody kind (afterMarks kind s)
  addTag options kind body.name body.nameAt (weaveFront kind s) (weaveBack kind s)

theorem writes_weaveMarker (kind : TagKind) (s : SymbolStream) :
    Writes (weaveMarker kind s) (readMarker kind s).1 [] := by
  cases kind with
  | expression => exact writes_nothing
  | _ => exact SymbolStream.writes_weaveMark _ s

theorem writes_weaveArguments (kind : TagKind) (s : SymbolStream) : ∃ spans,
    Writes (weaveArguments kind s) spans [] ∧
      (readBody kind s).spans = (nameSpan? kind s).toList ++ spans := by
  cases kind with
  | comment => exact ⟨[], writes_nothing, (List.append_nil _).symm⟩
  | _ => exact ⟨_, SymbolStream.writes_weaveArguments _, rfl⟩

/-- A tag writes its spans and tells its problems in the order in which they are
read. -/
theorem writes_weave (kind : TagKind) (s : SymbolStream) : ∃ spans spans',
    Writes (weaveFront kind s) spans [] ∧
      Writes (weaveBack kind s) spans' (read kind s).1.problems ∧
      (read kind s).1.spans = spans ++ spans' := by
  obtain ⟨arguments, harguments, hbody⟩ := writes_weaveArguments kind (afterMarks kind s)
  have hfront := (writes_write (Span.cover? .metaCode [s.current])).then
    ((s.advance.writes_weaveMark .tilde).then
      ((writes_weaveMarker kind (s.advance.readMark .tilde).2).then
        (writes_write (nameSpan? kind (afterMarks kind s)))))
  have hback := harguments.then (SymbolStream.writes_weaveEnding s.current.kind.isRaw false
    (readBody kind (afterMarks kind s)).rest)
  refine ⟨_, _, hfront, hback, ?_⟩
  change _ ++ _ ++ _ ++ (readBody kind (afterMarks kind s)).spans ++ _ = _
  rw [hbody]
  simp only [List.append_assoc]
  rfl

/-- To weave a tag is to read it whole and to place it then. -/
theorem weave_on (options : Options) (kind : TagKind) (s : SymbolStream) {b : Builder}
    (hopen : b.stack ≠ []) :
    (weave options kind s).on b = settle b () (b.addTag options (read kind s).1) := by
  obtain ⟨spans, spans', hfront, hback, hspans⟩ := writes_weave kind s
  exact addTag_on hfront hback hspans hopen

end Tag

namespace Parser

/-- Reads content up to the end and places it as it is read. -/
def weaveOn (p : Parser) : Parser × Except Fault Unit :=
  let text := Piece.takeText p.stream
  match (write (Span.cover? .text text.1)).on p.builder with
  | (b, .error fault) => ({ p with stream := text.2, builder := b }, .error fault)
  | (b, .ok ()) =>
    if _h : text.2.current.isEnd then ({ p with stream := text.2, builder := b }, .ok ())
    else
      match _hkind : TagKind.classify text.2 with
      | .error fault => ({ p with stream := text.2, builder := b }, .error fault)
      | .ok (kind, s) =>
        let behind := (Tag.read kind s).2
        match (Tag.weave p.options kind s).on b with
        | (c, .error fault) => ({ p with stream := behind, builder := c }, .error fault)
        | (c, .ok ()) => weaveOn { p with stream := behind, builder := c }
termination_by p.stream.upcoming.length
decreasing_by
  exact Nat.lt_of_lt_of_le (Piece.length_readTag_lt _h (Piece.readTag_of_classify _hkind))
    (Piece.readText_suffix _).length_le

variable {p q : Parser}

/-- Text is written as the piece of text that it is. -/
theorem write_on (options : Options) (span? : Option Span) (b : Builder) :
    (write span?).on b = settle b () (b.addPieces options (span?.toList.map .text)) := by
  obtain ⟨stack, ds⟩ := b
  cases span? <;> cases stack <;> rfl

theorem weaveText_on {options : Options} {stream : SymbolStream} {b c : Builder}
    (hadd : b.addPieces options (Piece.readText stream).1 = .ok c) :
    (write (Span.cover? .text (Piece.takeText stream).1)).on b = (c, .ok ()) := by
  rw [Piece.readText] at hadd
  rw [write_on options, hadd]
  rfl

theorem weaveOn_of_isEnd {b : Builder} (hend : (Piece.readText p.stream).2.current.isEnd)
    (hadd : p.builder.addPieces p.options (Piece.readText p.stream).1 = .ok b) :
    p.weaveOn = ({ p with stream := (Piece.readText p.stream).2, builder := b }, .ok ()) := by
  rw [weaveOn]
  simp only [weaveText_on hadd]
  exact dif_pos hend

theorem weaveOn_of_classify {b c : Builder} {kind : TagKind} {s : SymbolStream}
    (hend : ¬ (Piece.readText p.stream).2.current.isEnd)
    (hadd : p.builder.addPieces p.options (Piece.readText p.stream).1 = .ok b)
    (hkind : TagKind.classify (Piece.readText p.stream).2 = .ok (kind, s))
    (hnext : (Tag.weave p.options kind s).on b = (c, .ok ())) :
    p.weaveOn = weaveOn { p with stream := (Tag.read kind s).2, builder := c } := by
  change ¬ (Piece.takeText p.stream).2.current.isEnd at hend
  rw [weaveOn]
  simp only [weaveText_on hadd, dif_neg hend]
  split
  · rename_i heq
    cases hkind.symm.trans heq
  · rename_i heq
    cases hkind.symm.trans heq
    simp only [hnext]

theorem weaveOn_of_error {b : Builder} {fault : Fault}
    (hend : ¬ (Piece.readText p.stream).2.current.isEnd)
    (hadd : p.builder.addPieces p.options (Piece.readText p.stream).1 = .ok b)
    (hkind : TagKind.classify (Piece.readText p.stream).2 = .error fault) :
    p.weaveOn = ({ p with stream := (Piece.readText p.stream).2, builder := b }, .error fault) := by
  change ¬ (Piece.takeText p.stream).2.current.isEnd at hend
  rw [weaveOn]
  simp only [weaveText_on hadd, dif_neg hend]
  split
  · rename_i heq
    cases hkind.symm.trans heq
    rfl
  · rename_i heq
    cases hkind.symm.trans heq

/-- With a block open, to weave content is to read it piece by piece. -/
theorem weaveOn_eq_readOn (hopen : p.builder.stack ≠ []) : p.weaveOn = p.readOn := by
  induction hn : p.stream.upcoming.length using Nat.strongRecOn generalizing p with
  | ind n ih =>
    obtain ⟨b, hadd, hb⟩ := Builder.exists_addPieces p.options hopen (Piece.readText p.stream).1
    by_cases hend : (Piece.readText p.stream).2.current.isEnd
    · rw [readOn_of_isEnd hend hadd, weaveOn_of_isEnd hend hadd]
    · cases hkind : TagKind.classify (Piece.readText p.stream).2 with
      | error fault =>
        rw [weaveOn_of_error hend hadd hkind, readOn_of_error hend hadd]
        rw [Piece.readTag, hkind]
      | ok found =>
        obtain ⟨kind, s⟩ := found
        have htag := Piece.readTag_of_classify hkind
        obtain ⟨c, hnext, hc⟩ := Builder.exists_addPiece p.options hb (.tag (Tag.read kind s).1)
        have hweave := Tag.weave_on p.options kind s hb
        change b.addTag p.options (Tag.read kind s).1 = .ok c at hnext
        rw [hnext] at hweave
        have hless := Nat.lt_of_lt_of_le (Piece.length_readTag_lt hend htag)
          (Piece.readText_suffix p.stream).length_le
        rw [readOn_of_readTag hend hadd htag hnext, weaveOn_of_classify hend hadd hkind hweave]
        exact @ih _ (hn ▸ hless) { p with stream := (Tag.read kind s).2, builder := c } hc rfl

/-- Reads content as it is asked for, with every span placed when it is read. -/
def weaveContent (p : Parser) : Parser × Except Fault Unit :=
  match p.builder.currentBlock with
  | .error fault => (p, .error fault)
  | .ok _ => p.weaveOn

theorem weaveContent_eq (hroom : p.stream.pushedBack.length ≤ 1) :
    p.weaveContent = settle p () p.readContent := by
  rcases readContent_eq hroom with ⟨hnone, hcontent⟩ |
    ⟨pieces, rest, b, hread, -, hplaced, -, hcontent⟩
  · rw [hcontent, weaveContent, Builder.currentBlock, hnone]
    rfl
  · have hopen : p.builder.stack ≠ [] := by
      intro hnone
      rw [readContent, Builder.currentBlock, hnone] at hcontent
      cases hcontent
    have hwoven := weaveOn_eq_readOn hopen
    rw [readOn_eq hread hplaced.addPieces] at hwoven
    obtain ⟨block, outer, hstack⟩ := List.exists_cons_of_ne_nil hopen
    rw [hcontent, weaveContent, Builder.currentBlock, hstack]
    exact hwoven

/-- A parse is woven: it opens the root, weaves its content and finishes. -/
theorem parse_of_weaveContent (source : String) (options : Options) :
    ∃ q, (rooted source options).weaveContent = (q, .ok ()) ∧
      parse source options = q.finish := by
  obtain ⟨q, hcontent⟩ := exists_readContent_rooted source options
  refine ⟨q, ?_, parse_of_readContent hcontent⟩
  rw [weaveContent_eq length_pushedBack_rooted, hcontent]
  rfl

end Parser

end BraceTemplate

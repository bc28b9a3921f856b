import BraceTemplate.Tag.Ending

/-!
# Tags

A tag is read on its own, without regard to the blocks around it: its kind, its
name, its spans in order and what is wrong with it. The kind is told by the
first symbol behind the opening delimiter and one `~`, for which symbols are
taken off the stream and back again.
-/

namespace BraceTemplate

inductive TagKind where
  | blockOpen
  | blockClose
  | comment
  | expression
deriving DecidableEq, Repr

namespace TagKind

def ofMarker : SymbolKind → TagKind
  | .hash => blockOpen
  | .slash => blockClose
  | .bang => comment
  | _ => expression

/-- Looks past the opening delimiter for the kind of a tag. The stream that is
handed out has the same symbols ahead. -/
def classify (s : SymbolStream) : Except Fault (TagKind × SymbolStream) := do
  let delimiter := s.current
  let next := s.advance.current
  let rest := s.advance.advance
  let marker := if next.kind = .tilde then rest.current.kind else next.kind
  let rest ← rest.pushBack next
  let rest ← rest.pushBack delimiter
  return (ofMarker marker, rest)

theorem classify_eq_ok {s t : SymbolStream} {kind : TagKind} (h : classify s = .ok (kind, t)) :
    t = ⟨s.current :: s.advance.current :: s.advance.advance.pushedBack,
      s.advance.advance.scanner⟩ := by
  simp only [classify, bind, Except.bind, pure, Except.pure] at h
  split at h
  · simp at h
  · rename_i next hnext
    split at h
    · simp at h
    · rename_i delimiter hdelimiter
      obtain ⟨-, rfl⟩ := SymbolStream.pushBack_eq_ok_iff.1 hnext
      obtain ⟨-, rfl⟩ := SymbolStream.pushBack_eq_ok_iff.1 hdelimiter
      simp only [Except.ok.injEq, Prod.mk.injEq] at h
      exact h.2.symm

/-- Looking for the kind of a tag gives back what it takes. -/
theorem upcoming_of_classify {s t : SymbolStream} {kind : TagKind}
    (h : classify s = .ok (kind, t)) : t.upcoming = s.upcoming := by
  rw [classify_eq_ok h, SymbolStream.upcoming_cons, SymbolStream.upcoming_cons]
  by_cases hfirst : s.current.isEnd
  · simp [hfirst, SymbolStream.upcoming_of_isEnd]
  · rw [SymbolStream.upcoming_of_not_isEnd hfirst]
    by_cases hsecond : s.advance.current.isEnd
    · simp [hfirst, hsecond, SymbolStream.upcoming_of_isEnd]
    · simp [hfirst, hsecond, SymbolStream.upcoming_of_not_isEnd hsecond]

theorem current_of_classify {s t : SymbolStream} {kind : TagKind}
    (h : classify s = .ok (kind, t)) : t.current = s.current := by
  rw [classify_eq_ok h, SymbolStream.current_cons]

end TagKind

structure Tag where
  kind : TagKind
  /-- Empty for comments. -/
  name : String
  /-- Where the name stands, or would. -/
  nameAt : Location
  spans : List Span
  problems : List Diagnostic
deriving DecidableEq, Repr

namespace Tag

/-- What stands between the marks at the front of a tag and its end. -/
structure Body where
  name : String
  nameAt : Location
  spans : List Span
  rest : SymbolStream

/-- The text of a comment. -/
def readComment (s : SymbolStream) : Body :=
  let text := s.takeWhile (· == .comment)
  ⟨"", .point s.current.location.start, (Span.cover? .comment text.1).toList, text.2⟩

/-- A name, which may be empty, and arguments. Where the name ends is not cut off
at 32 bits; offsets that do not fit into these are out of scope. -/
def readNamed (s : SymbolStream) : Body :=
  let run := s.takeRun
  let name := Symbol.joinTexts run.1
  let start := s.current.location.start
  let arguments := run.2.readArguments
  ⟨name, ⟨start, start + Text.byteLength name.toList⟩,
    (Span.cover? .expression run.1).toList ++ arguments.1, arguments.2⟩

/-- The mark that tells a kind of tag. -/
def readMarker (kind : TagKind) (s : SymbolStream) : List Span × SymbolStream :=
  match kind with
  | .blockOpen => s.readMark .hash
  | .blockClose => s.readMark .slash
  | .comment => s.readMark .bang
  | .expression => ([], s)

def readBody (kind : TagKind) (s : SymbolStream) : Body :=
  match kind with
  | .comment => readComment s
  | _ => readNamed s

theorem readBody_of_ne_comment {kind : TagKind} (hkind : kind ≠ .comment) (s : SymbolStream) :
    readBody kind s = readNamed s := by
  cases kind with
  | comment => exact absurd rfl hkind
  | _ => rfl

/-- Reads a tag of a known kind whose opening delimiter is current. -/
def read (kind : TagKind) (s : SymbolStream) : Tag × SymbolStream :=
  let delimiter := (Span.cover? .metaCode [s.current]).toList
  let tilde := s.advance.readMark .tilde
  let marker := readMarker kind tilde.2
  let body := readBody kind marker.2
  let ending := body.rest.readEnding s.current.kind.isRaw false
  ({ kind := kind
     name := body.name
     nameAt := body.nameAt
     spans := delimiter ++ tilde.1 ++ marker.1 ++ body.spans ++ ending.spans
     problems := ending.problems },
    ending.rest)

theorem readMarker_suffix (kind : TagKind) (s : SymbolStream) :
    (readMarker kind s).2.upcoming <:+ s.upcoming := by
  cases kind with
  | expression => exact List.suffix_refl _
  | _ => exact s.readMark_suffix (by simp)

theorem readBody_suffix (kind : TagKind) (s : SymbolStream) :
    (readBody kind s).rest.upcoming <:+ s.upcoming := by
  cases kind with
  | comment => exact s.takeWhile_suffix _
  | _ => exact List.IsSuffix.trans (SymbolStream.readArguments_suffix _) s.takeRun_suffix

/-- A tag takes its opening delimiter at least. -/
theorem length_read_lt (kind : TagKind) {s : SymbolStream} (h : ¬ s.current.isEnd) :
    (read kind s).2.upcoming.length < s.upcoming.length := by
  refine Nat.lt_of_le_of_lt (List.IsSuffix.length_le ?_) (SymbolStream.length_upcoming_advance h)
  exact (SymbolStream.readEnding_suffix _ _ _).trans <|
    (readBody_suffix kind _).trans <|
      (readMarker_suffix kind _).trans <|
        SymbolStream.readMark_suffix _ (by simp)

end Tag

end BraceTemplate

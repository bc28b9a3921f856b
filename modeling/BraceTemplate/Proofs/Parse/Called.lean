import BraceTemplate.Proofs.Answering
import BraceTemplate.Proofs.Builder.Placing
import BraceTemplate.Proofs.Pieces.Looking

/-!
# Parsers called in any order

A parser may be called in any order and as often as its caller likes. Refused
calls take nothing off its stream, and reading content leaves at most one symbol
taken back, so looking for the kind of a tag never runs out of room.
-/

namespace BraceTemplate

namespace Parser

/-- What a parser can be called for. -/
inductive Call where
  | openRoot
  | readContent
  | finish
  | run

/-- What a call leaves and answers. A parse is handed out of a copy, so that the
parser can be called again. -/
def answer (p : Parser) : Call → Parser × Except Fault (Option Parse)
  | .openRoot => settle p none p.openRoot
  | .readContent => settle p none p.readContent
  | .finish => (p, p.finish.map some)
  | .run => (p, p.run.map some)

theorem openRoot_eq (p : Parser) :
    p.builder.stack = [] ∧
        p.openRoot = .ok { p with builder := { p.builder with stack := [.empty .text] } } ∨
      p.builder.stack ≠ [] ∧ p.openRoot = .error (.invalidState .openRoot) := by
  obtain ⟨stream, ⟨stack, ds⟩, options⟩ := p
  cases stack with
  | nil => exact .inl ⟨rfl, rfl⟩
  | cons block outer => exact .inr ⟨List.cons_ne_nil _ _, rfl⟩

/-- Content is read as soon as the root is open, from a stream with at most one
symbol taken back. -/
theorem readContent_eq {p : Parser} (hroom : p.stream.pushedBack.length ≤ 1) :
    p.builder.stack = [] ∧ p.readContent = .error (.invalidState .currentBlock) ∨
      ∃ pieces rest b, Piece.readAll p.stream = .ok (pieces, rest) ∧
        rest.pushedBack.length ≤ 1 ∧ Builder.PlacedAll p.options p.builder pieces b ∧
        b.stack ≠ [] ∧ p.readContent = .ok { p with stream := rest, builder := b } := by
  obtain ⟨stream, ⟨stack, ds⟩, options⟩ := p
  cases stack with
  | nil => exact .inl ⟨rfl, rfl⟩
  | cons block outer =>
    obtain ⟨pieces, rest, hread, hrest, -⟩ := Piece.readAll_lookups hroom
    obtain ⟨last, others, found, hadd, hplaced⟩ :=
      Builder.addPieces_placed options block outer ds pieces
    refine .inr ⟨pieces, rest, _, hread, hrest, hplaced, List.cons_ne_nil _ _, ?_⟩
    change Piece.readAll stream = _ at hread
    simp only [readContent, Builder.currentBlock, hread, hadd, bind, Except.bind, pure,
      Except.pure]

theorem finish_eq (p : Parser) :
    p.builder.stack = [] ∧ p.finish = .error (.invalidState .finish) ∨
      p.builder.stack ≠ [] ∧ ∃ parse, p.finish = .ok parse := by
  obtain ⟨stream, ⟨stack, ds⟩, options⟩ := p
  cases stack with
  | nil => exact .inl ⟨rfl, rfl⟩
  | cons block outer => exact .inr ⟨List.cons_ne_nil _ _, _, rfl⟩

theorem run_eq {p : Parser} (hroom : p.stream.pushedBack.length ≤ 1) :
    p.builder.stack = [] ∧ (∃ parse, p.run = .ok parse) ∨
      p.builder.stack ≠ [] ∧ p.run = .error (.invalidState .openRoot) := by
  rcases p.openRoot_eq with ⟨hempty, hroot⟩ | ⟨hopen, hroot⟩
  · refine .inl ⟨hempty, ?_⟩
    rcases @readContent_eq ⟨p.stream, ⟨[.empty .text], p.builder.diagnostics⟩, p.options⟩ hroom with
      ⟨hnone, -⟩ | ⟨pieces, rest, b, -, -, -, hstack, hcontent⟩
    · cases hnone
    · rcases finish_eq ⟨rest, b, p.options⟩ with ⟨hnone, -⟩ | ⟨-, parse, hfinish⟩
      · exact absurd hnone hstack
      · refine ⟨parse, ?_⟩
        simp only [run, hroot, hcontent, hfinish, bind, Except.bind]
  · exact .inr ⟨hopen, by rw [run, hroot]; rfl⟩

/-- No call needs more room than there is, and none leaves less. -/
theorem answer_keeps (p : Parser) (call : Call) (hroom : p.stream.pushedBack.length ≤ 1) :
    (p.answer call).1.stream.pushedBack.length ≤ 1 ∧
      (p.answer call).2 ≠ .error .pushBackOverflow := by
  cases call with
  | openRoot =>
    rw [answer]
    rcases p.openRoot_eq with ⟨-, heq⟩ | ⟨-, heq⟩ <;> rw [heq] <;> exact ⟨hroom, nofun⟩
  | readContent =>
    rw [answer]
    rcases readContent_eq hroom with ⟨-, heq⟩ | ⟨pieces, rest, b, -, hrest, -, -, heq⟩
    · rw [heq]
      exact ⟨hroom, nofun⟩
    · rw [heq]
      exact ⟨hrest, nofun⟩
  | finish =>
    rw [answer]
    rcases p.finish_eq with ⟨-, heq⟩ | ⟨-, parse, heq⟩ <;> rw [heq] <;> exact ⟨hroom, nofun⟩
  | run =>
    rw [answer]
    rcases run_eq hroom with ⟨-, parse, heq⟩ | ⟨-, heq⟩ <;> rw [heq] <;> exact ⟨hroom, nofun⟩

/-- Whatever a parser was called for, there is room to look for the kind of each
tag that it reads next. -/
theorem answerAll_lookups (source : String) (options : Options) (calls : List Call) :
    ∃ p results, answerAll answer (.ofSource source options) calls = (p, results) ∧
      (∀ result ∈ results, result ≠ .error .pushBackOverflow) ∧
      (∀ s ∈ Piece.lookups p.stream, TagKind.Lookup s) ∧
      ∃ pieces rest, Piece.readAll p.stream = .ok (pieces, rest) ∧
        List.Forall₂ (fun s tag => ∃ t, Piece.readTag s = .ok (tag, t)) (Piece.lookups p.stream)
          (pieces.filterMap Piece.tag?) := by
  have hstart : (ofSource source options).stream.pushedBack.length ≤ 1 := Nat.zero_le 1
  obtain ⟨hroom, hresults⟩ := answerAll_keeps
    (fun p : Parser => p.stream.pushedBack.length ≤ 1)
    (fun result : Except Fault (Option Parse) => result ≠ .error .pushBackOverflow)
    answer_keeps hstart calls
  obtain ⟨pieces, rest, hread, -, hlookups, htags⟩ := Piece.readAll_lookups hroom
  exact ⟨_, _, rfl, hresults, hlookups, pieces, rest, hread, htags⟩

/-- Where three braces are followed by two, a symbol is still taken back when the
second tag begins. -/
theorem answerAll_lookups_taken_back :
    ∃ p results, answerAll answer (.ofSource "\x7b\x7b\x7b\x7b\x7b" {}) [.readContent, .openRoot] =
        (p, results) ∧ results.length = 2 ∧
      ∃ s ∈ Piece.lookups p.stream, s.pushedBack = [s.current] ∧ TagKind.Lookup s := by
  obtain ⟨p, results, hanswers, -, hlookups, -⟩ :=
    answerAll_lookups "\x7b\x7b\x7b\x7b\x7b" {} [.readContent, .openRoot]
  have htaken : (Piece.lookups (.ofSource "\x7b\x7b\x7b\x7b\x7b")).any
      (fun s => s.pushedBack == [s.current]) = true := by
    decide +kernel
  cases hanswers
  obtain ⟨s, hs, hpushed⟩ := List.any_eq_true.1 htaken
  exact ⟨_, _, rfl, rfl, s, hs, beq_iff_eq.1 hpushed, hlookups s hs⟩

end Parser

end BraceTemplate

import Mathlib.Data.List.Induction
import BraceTemplate.Proofs.Builder.Refusing
import BraceTemplate.Proofs.Parse.Called

/-!
# Phases of a parser

A parser opens its root once, reads its content, and may be asked for both again.
Content is read piece by piece, and what was read in front of a refusal stays
read. The loop ends with nothing ahead, where to run it again reads no piece; so
a parser is unopened, has its root open, or has read everything, and no refused
call takes it from one phase to another.
-/

namespace BraceTemplate

namespace Parser

variable {p q : Parser}

/-- Reads pieces up to the end and adds each before the next is read. -/
def readOn (p : Parser) : Parser × Except Fault Unit :=
  let front := Piece.readText p.stream
  match p.builder.addPieces p.options front.1 with
  | .error fault => ({ p with stream := front.2 }, .error fault)
  | .ok b =>
    if _h : front.2.current.isEnd then ({ p with stream := front.2, builder := b }, .ok ())
    else
      match _htag : Piece.readTag front.2 with
      | .error fault => ({ p with stream := front.2, builder := b }, .error fault)
      | .ok (tag, t) =>
        match b.addTag p.options tag with
        | .error fault => ({ p with stream := t, builder := b }, .error fault)
        | .ok c => readOn { p with stream := t, builder := c }
termination_by p.stream.upcoming.length
decreasing_by
  exact Nat.lt_of_lt_of_le (Piece.length_readTag_lt _h _htag) (Piece.readText_suffix _).length_le

theorem readOn_of_isEnd {b : Builder} (hend : (Piece.readText p.stream).2.current.isEnd)
    (hadd : p.builder.addPieces p.options (Piece.readText p.stream).1 = .ok b) :
    p.readOn = ({ p with stream := (Piece.readText p.stream).2, builder := b }, .ok ()) := by
  rw [readOn]
  simp only [hadd, hend, dite_true]

theorem readOn_of_readTag {b c : Builder} {tag : Tag} {t : SymbolStream}
    (hend : ¬ (Piece.readText p.stream).2.current.isEnd)
    (hadd : p.builder.addPieces p.options (Piece.readText p.stream).1 = .ok b)
    (htag : Piece.readTag (Piece.readText p.stream).2 = .ok (tag, t))
    (hnext : b.addTag p.options tag = .ok c) :
    p.readOn = readOn { p with stream := t, builder := c } := by
  rw [readOn]
  simp only [hadd, dif_neg hend]
  split
  · rename_i heq
    rw [htag] at heq
    cases heq
  · rename_i heq
    rw [htag] at heq
    cases heq
    simp only [hnext]

theorem readOn_of_error {b : Builder} {fault : Fault}
    (hend : ¬ (Piece.readText p.stream).2.current.isEnd)
    (hadd : p.builder.addPieces p.options (Piece.readText p.stream).1 = .ok b)
    (htag : Piece.readTag (Piece.readText p.stream).2 = .error fault) :
    p.readOn = ({ p with stream := (Piece.readText p.stream).2, builder := b }, .error fault) := by
  rw [readOn]
  simp only [hadd, dif_neg hend]
  split
  · rename_i heq
    cases htag.symm.trans heq
    rfl
  · rename_i heq
    cases htag.symm.trans heq

/-- Piece by piece, a builder comes to what all pieces make of it at once. -/
theorem readOn_eq {pieces : List Piece} {rest : SymbolStream} {b : Builder}
    (hread : Piece.readAll p.stream = .ok (pieces, rest))
    (hadd : p.builder.addPieces p.options pieces = .ok b) :
    p.readOn = ({ p with stream := rest, builder := b }, .ok ()) := by
  induction hn : p.stream.upcoming.length using Nat.strongRecOn generalizing p pieces with
  | ind n ih =>
    rcases Piece.readAll_cases hread with ⟨hend, hfront⟩ | ⟨hend, tag, t, more, htag, hmore, rfl⟩
    · rw [readOn_of_isEnd (b := b) hend (by rw [hfront]; exact hadd), hfront]
    · obtain ⟨c, hfront, hrest⟩ := Builder.addPieces_unappend hadd
      obtain ⟨d, hnext, hrest⟩ := Builder.addPieces_uncons hrest
      rw [readOn_of_readTag hend hfront htag hnext]
      have hless := Nat.lt_of_lt_of_le (Piece.length_readTag_lt hend htag)
        (Piece.readText_suffix p.stream).length_le
      exact @ih _ (hn ▸ hless) { p with stream := t, builder := d } _ hmore hrest rfl

/-- What a call leaves and answers when it is done step by step. -/
def respond (p : Parser) : Call → Parser × Except Fault (Option Parse)
  | .openRoot =>
    let (b, result) := Builder.Steps.openRoot.on p.builder
    ({ p with builder := b }, result.map fun _ => none)
  | .readContent =>
    match p.builder.currentBlock with
    | .error fault => (p, .error fault)
    | .ok _ =>
      let (q, result) := p.readOn
      (q, result.map fun _ => none)
  | .finish => (p, p.finish.map some)
  | .run => (p, p.run.map some)

/-- A call does nothing in front of what it is refused for. -/
theorem respond_eq_answer (hroom : p.stream.pushedBack.length ≤ 1) (call : Call) :
    p.respond call = p.answer call := by
  cases call with
  | openRoot =>
    obtain ⟨stream, ⟨stack, ds⟩, options⟩ := p
    cases stack <;> rfl
  | readContent =>
    obtain ⟨stream, ⟨stack, ds⟩, options⟩ := p
    cases stack with
    | nil => rfl
    | cons block outer =>
      rcases readContent_eq hroom with ⟨hnone, -⟩ |
        ⟨pieces, rest, b, hread, -, hplaced, -, hcontent⟩
      · cases hnone
      · simp only [answer, hcontent, respond, Builder.currentBlock,
          readOn_eq hread hplaced.addPieces]
        rfl
  | finish => rfl
  | run => rfl

/-- Content that is read is read to the end. -/
theorem readContent_again (hroom : p.stream.pushedBack.length ≤ 1)
    (hcontent : p.readContent = .ok q) :
    q.stream.pushedBack.length ≤ 1 ∧ q.builder.stack ≠ [] ∧ q.readContent = .ok q := by
  rcases readContent_eq hroom with ⟨-, hnone⟩ |
    ⟨pieces, rest, b, hread, hrest, -, hopen, hcontent'⟩
  · cases hcontent.symm.trans hnone
  · cases hcontent.symm.trans hcontent'
    have hrest' := Piece.readAll_rest (Nat.le_succ_of_le hroom) hread
    obtain ⟨stack, ds⟩ := b
    cases stack with
    | nil => exact absurd rfl hopen
    | cons block outer =>
      refine ⟨hrest, hopen, ?_⟩
      simp only [readContent, Builder.currentBlock, hrest', bind, Except.bind, pure, Except.pure,
        Builder.addPieces, List.foldlM_nil]

/-! ### Phases -/

/-- The parser of a source with its root open and nothing read. -/
def rooted (source : String) (options : Options) : Parser :=
  { ofSource source options with builder := ⟨[.empty .text], #[]⟩ }

/-- Whether a call was granted, among calls and the answers to them. -/
def Granted (call : Call) (exchanges : List (Call × Except Fault (Option Parse))) : Prop :=
  ∃ answer, (call, .ok answer) ∈ exchanges

variable {source : String} {options : Options}
  {exchanges : List (Call × Except Fault (Option Parse))}
  {exchange : Call × Except Fault (Option Parse)} {call : Call}

theorem granted_concat : Granted call (exchanges ++ [exchange]) ↔
    Granted call exchanges ∨ ∃ answer, exchange = (call, .ok answer) := by
  simp [Granted, exists_or, eq_comm]

/-- Where calls take a parser. -/
inductive Reached (source : String) (options : Options)
    (exchanges : List (Call × Except Fault (Option Parse))) : Parser → Prop
  | unopened (hopen : ∀ answer, (.openRoot, answer) ∉ exchanges)
      (hread : ¬ Granted .readContent exchanges) :
      Reached source options exchanges (ofSource source options)
  | opened (hopen : Granted .openRoot exchanges) (hread : ¬ Granted .readContent exchanges) :
      Reached source options exchanges (rooted source options)
  | read {q : Parser} (hopen : Granted .openRoot exchanges)
      (hread : Granted .readContent exchanges)
      (hcontent : (rooted source options).readContent = .ok q) :
      Reached source options exchanges q

/-- Calls that are refused or come too late stay in a phase. -/
theorem Reached.concat (h : Reached source options exchanges p)
    (hopen : exchange.1 = .openRoot → Granted .openRoot exchanges)
    (hread : (∃ answer, exchange = (.readContent, .ok answer)) → Granted .readContent exchanges) :
    Reached source options (exchanges ++ [exchange]) p := by
  have hread' : Granted .readContent (exchanges ++ [exchange]) ↔
      Granted .readContent exchanges := by
    rw [granted_concat, or_iff_left_of_imp hread]
  cases h with
  | unopened hnone hunread =>
    refine .unopened (fun answer hmem => ?_) (mt hread'.1 hunread)
    rcases List.mem_append.1 hmem with hmem | hlast
    · exact hnone answer hmem
    · obtain ⟨answer, hgranted⟩ := hopen (congrArg Prod.fst (List.mem_singleton.1 hlast)).symm
      exact hnone _ hgranted
  | opened hopened hunread =>
    exact .opened (granted_concat.2 (.inl hopened)) (mt hread'.1 hunread)
  | read hopened hwas hcontent =>
    exact .read (granted_concat.2 (.inl hopened)) (hread'.2 hwas) hcontent

theorem respond_openRoot (hroom : p.stream.pushedBack.length ≤ 1) (hopen : p.builder.stack ≠ []) :
    p.respond .openRoot = (p, .error (.invalidState .openRoot)) := by
  obtain ⟨-, hrefused⟩ := p.openRoot_eq.resolve_left fun h => hopen h.1
  rw [respond_eq_answer hroom, answer, hrefused]
  rfl

theorem respond_readContent (hroom : p.stream.pushedBack.length ≤ 1)
    (hcontent : p.readContent = .ok q) : p.respond .readContent = (q, .ok none) := by
  rw [respond_eq_answer hroom, answer, hcontent]
  rfl

theorem length_pushedBack_rooted :
    (rooted source options).stream.pushedBack.length ≤ 1 := Nat.zero_le 1

theorem exists_readContent_rooted (source : String) (options : Options) :
    ∃ q, (rooted source options).readContent = .ok q := by
  rcases readContent_eq (p := rooted source options) length_pushedBack_rooted with
    ⟨hnone, -⟩ | ⟨pieces, rest, b, -, -, -, -, hcontent⟩
  · cases hnone
  · exact ⟨_, hcontent⟩

/-- A call goes to the next phase or stays. -/
theorem Reached.respond (h : Reached source options exchanges p) (call : Call) :
    Reached source options (exchanges ++ [(call, (p.respond call).2)]) (p.respond call).1 := by
  cases call with
  | finish => exact h.concat nofun nofun
  | run => exact h.concat nofun nofun
  | openRoot =>
    cases h with
    | unopened hnone hunread =>
      refine .opened (granted_concat.2 (.inr ⟨none, rfl⟩)) fun hgranted => ?_
      exact hunread ((granted_concat.1 hgranted).resolve_right nofun)
    | opened hopened hunread =>
      exact (Reached.opened hopened hunread).concat (fun _ => hopened) nofun
    | read hopened hwas hcontent =>
      obtain ⟨hroom, hopen, -⟩ := readContent_again length_pushedBack_rooted hcontent
      rw [respond_openRoot hroom hopen]
      exact (Reached.read hopened hwas hcontent).concat (fun _ => hopened) nofun
  | readContent =>
    cases h with
    | unopened hnone hunread => exact (Reached.unopened hnone hunread).concat nofun nofun
    | opened hopened hunread =>
      obtain ⟨q, hcontent⟩ := exists_readContent_rooted source options
      rw [respond_readContent length_pushedBack_rooted hcontent]
      exact .read (granted_concat.2 (.inl hopened)) (granted_concat.2 (.inr ⟨none, rfl⟩)) hcontent
    | read hopened hwas hcontent =>
      obtain ⟨hroom, -, hagain⟩ := readContent_again length_pushedBack_rooted hcontent
      rw [respond_readContent hroom hagain]
      exact (Reached.read hopened hwas hcontent).concat nofun fun _ => hwas

theorem reached_answerAll (source : String) (options : Options) (calls : List Call) :
    Reached source options
      (calls.zip (answerAll respond (.ofSource source options) calls).2)
      (answerAll respond (.ofSource source options) calls).1 := by
  induction calls using List.reverseRecOn with
  | nil => exact .unopened (fun _ => List.not_mem_nil) fun ⟨_, h⟩ => List.not_mem_nil h
  | append_singleton calls call ih =>
    rw [answerAll_concat, List.zip_append (length_answerAll _ _ _).symm]
    exact ih.respond call

theorem respond_refused (hroom : p.stream.pushedBack.length ≤ 1) {fault : Fault}
    (hrefused : (p.respond call).2 = .error fault) : (p.respond call).1 = p := by
  rw [respond_eq_answer hroom] at hrefused ⊢
  cases call with
  | openRoot => exact settle_of_error hrefused
  | readContent => exact settle_of_error hrefused
  | finish => rfl
  | run => rfl

/-- A parse opens the root, reads and finishes. -/
theorem parse_of_readContent (hcontent : (rooted source options).readContent = .ok q) :
    parse source options = q.finish := by
  change (rooted source options).readContent.bind finish = _
  rw [hcontent]
  rfl

/-- What a parser grants and answers depends on its phase alone, whatever it was
called for. -/
theorem phased_of_calls (source : String) (options : Options) (calls : List Call) :
    ∃ p results, answerAll respond (.ofSource source options) calls = (p, results) ∧
      (.openRoot ∉ calls →
        (p.respond .openRoot).2 = .ok none ∧
        (p.respond .readContent).2 = .error (.invalidState .currentBlock) ∧
        p.run = parse source options) ∧
      (.openRoot ∈ calls →
        (p.respond .openRoot).2 = .error (.invalidState .openRoot) ∧
        (p.respond .readContent).2 = .ok none ∧
        p.run = .error (.invalidState .openRoot)) ∧
      (∀ call fault, (p.respond call).2 = .error fault → (p.respond call).1 = p) ∧
      (¬ Granted .openRoot (calls.zip results) → p.finish = .error (.invalidState .finish)) ∧
      (Granted .openRoot (calls.zip results) → ¬ Granted .readContent (calls.zip results) →
        p.finish = .ok ⟨⟨.text, "", []⟩, []⟩) ∧
      (Granted .readContent (calls.zip results) →
        ∃ result, p.finish = .ok result ∧ parse source options = .ok result) := by
  have hreached := reached_answerAll source options calls
  have hlength := length_answerAll respond (.ofSource source options) calls
  refine ⟨_, _, rfl, ?_⟩
  generalize (answerAll respond (.ofSource source options) calls).1 = p at hreached ⊢
  generalize (answerAll respond (.ofSource source options) calls).2 = results at *
  have hanswered : .openRoot ∈ calls → ∃ answer, (.openRoot, answer) ∈ calls.zip results := by
    intro hcall
    rw [← List.map_fst_zip hlength.ge] at hcall
    obtain ⟨⟨_, answer⟩, hmem, rfl⟩ := List.mem_map.1 hcall
    exact ⟨answer, hmem⟩
  have hcalled : Granted .openRoot (calls.zip results) → .openRoot ∈ calls :=
    fun ⟨_, h⟩ => (List.of_mem_zip h).1
  cases hreached with
  | unopened hnone hunread =>
    refine ⟨fun _ => ⟨rfl, rfl, rfl⟩, fun hcall => ?_,
      fun call fault => @respond_refused (ofSource source options) call (Nat.zero_le 1) fault,
      fun _ => rfl, fun ⟨_, hopen⟩ => absurd hopen (hnone _), fun hread => absurd hread hunread⟩
    obtain ⟨answer, hmem⟩ := hanswered hcall
    exact absurd hmem (hnone answer)
  | opened hopen hunread =>
    obtain ⟨q, hcontent⟩ := exists_readContent_rooted source options
    refine ⟨fun hnone => absurd (hcalled hopen) hnone, fun _ => ⟨rfl, ?_, rfl⟩,
      fun call fault => respond_refused length_pushedBack_rooted,
      fun hnone => absurd hopen hnone, fun _ _ => rfl, fun hread => absurd hread hunread⟩
    rw [respond_readContent length_pushedBack_rooted hcontent]
  | read hopen hread hcontent =>
    obtain ⟨hroom, hstack, hagain⟩ := readContent_again length_pushedBack_rooted hcontent
    refine ⟨fun hnone => absurd (hcalled hopen) hnone, fun _ => ⟨?_, ?_, ?_⟩,
      fun call fault => respond_refused hroom,
      fun hnone => absurd hopen hnone, fun _ hunread => absurd hread hunread, fun _ => ?_⟩
    · rw [respond_openRoot hroom hstack]
    · rw [respond_readContent hroom hagain]
    · exact ((run_eq hroom).resolve_left fun h => hstack h.1).2
    · obtain ⟨result, hfinish⟩ := (p.finish_eq.resolve_left fun h => hstack h.1).2
      exact ⟨result, hfinish, (parse_of_readContent hcontent).trans hfinish⟩

end Parser

end BraceTemplate

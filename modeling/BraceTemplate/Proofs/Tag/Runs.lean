import BraceTemplate.Proofs.Symbol.Taking
import BraceTemplate.Proofs.Symbol.Tiling
import BraceTemplate.Tag.Run

/-!
# Runs by counting

Where a run ends is told by how many parentheses and brackets are open and how
many pipes there were, each counted on its own from the start of the run. What
the reader takes is such a run, and no longer one is.
-/

namespace BraceTemplate

/-- How many brackets are open behind symbols. A closing one counts for nothing
where none is open. -/
def openCount (opening closing : SymbolKind) (symbols : List Symbol) : Nat :=
  symbols.foldl
    (fun n s => if s.kind = opening then n + 1 else if s.kind = closing then n - 1 else n) 0

/-- Behind the symbols something is open that blanks may stand in. -/
def Nested (front : List Symbol) : Prop :=
  0 < openCount .leftParen .rightParen front ∨ 0 < openCount .leftBracket .rightBracket front ∨
    front.countP (·.kind = .pipe) % 2 = 1

instance (front : List Symbol) : Decidable (Nested front) := inferInstanceAs (Decidable (_ ∨ _))

/-- A name or an argument in front of further symbols. -/
structure IsRun (group behind : List Symbol) : Prop where
  nonempty : group ≠ []
  inside : ∀ s ∈ group, s.kind.isDelimiter = false
  nested : ∀ front s back, group = front ++ s :: back →
    s.kind = .whitespace ∨ s.kind = .tilde → Nested front
  stops : ∀ s ∈ behind.head?, s.kind.isDelimiter = true ∨
    (s.kind = .whitespace ∨ s.kind = .tilde) ∧ ¬ Nested group

theorem not_nested_nil : ¬ Nested [] := by decide

/-- Behind a run there is no other one. -/
theorem IsRun.not_isRun {group next behind rest : List Symbol} (h : IsRun group (next ++ behind)) :
    ¬ IsRun next rest := by
  intro hnext
  cases next with
  | nil => exact hnext.nonempty rfl
  | cons s next =>
    rcases h.stops s rfl with hdelimiter | ⟨hblank, -⟩
    · rw [hnext.inside s List.mem_cons_self] at hdelimiter
      cases hdelimiter
    · exact not_nested_nil (hnext.nested [] s next rfl hblank)

namespace Nesting

/-- The nesting behind symbols. -/
def through (n : Nesting) (symbols : List Symbol) : Nesting :=
  symbols.foldl (fun n s => n.after s.kind) n

theorem parens_after (n : Nesting) (kind : SymbolKind) : (n.after kind).parens =
    if kind = .leftParen then n.parens + 1
    else if kind = .rightParen then n.parens - 1 else n.parens := by
  cases kind <;> rfl

theorem brackets_after (n : Nesting) (kind : SymbolKind) : (n.after kind).brackets =
    if kind = .leftBracket then n.brackets + 1
    else if kind = .rightBracket then n.brackets - 1 else n.brackets := by
  cases kind <;> rfl

theorem inPipes_after (n : Nesting) (kind : SymbolKind) :
    (n.after kind).inPipes = (n.inPipes ^^ decide (kind = .pipe)) := by
  cases kind <;> simp [after]

/-- The parts of a nesting do not interact. -/
theorem through_eq (n : Nesting) (symbols : List Symbol) :
    (n.through symbols).parens = symbols.foldl (fun m s =>
        if s.kind = .leftParen then m + 1 else if s.kind = .rightParen then m - 1 else m) n.parens ∧
      (n.through symbols).brackets = symbols.foldl (fun m s =>
        if s.kind = .leftBracket then m + 1
        else if s.kind = .rightBracket then m - 1 else m) n.brackets ∧
      (n.through symbols).inPipes =
        (n.inPipes ^^ decide (symbols.countP (·.kind = .pipe) % 2 = 1)) := by
  induction symbols generalizing n with
  | nil => exact ⟨rfl, rfl, (Bool.xor_false _).symm⟩
  | cons s symbols ih =>
    obtain ⟨hparens, hbrackets, hpipes⟩ := ih (n.after s.kind)
    rw [parens_after] at hparens
    rw [brackets_after] at hbrackets
    rw [inPipes_after] at hpipes
    refine ⟨hparens, hbrackets, hpipes.trans ?_⟩
    rw [List.countP_cons, Bool.xor_assoc]
    congr 1
    by_cases hpipe : s.kind = .pipe
    · rw [hpipe]
      by_cases hodd : symbols.countP (·.kind = .pipe) % 2 = 1
      · simp [hodd, show (symbols.countP (·.kind = .pipe) + 1) % 2 = 0 by omega]
      · simp [hodd, show (symbols.countP (·.kind = .pipe) + 1) % 2 = 1 by omega]
    · simp [hpipe]

theorem isNested_through (front : List Symbol) :
    (through {} front).isNested = true ↔ Nested front := by
  obtain ⟨hparens, hbrackets, hpipes⟩ := through_eq {} front
  rw [isNested, hparens, hbrackets, hpipes, Nested, openCount, openCount]
  simp [Nat.pos_iff_ne_zero, or_assoc]

theorem stopsAt_iff (n : Nesting) (kind : SymbolKind) : n.stopsAt kind = true ↔
    kind.isDelimiter = true ∨ (kind = .whitespace ∨ kind = .tilde) ∧ ¬ n.isNested = true := by
  simp [stopsAt, SymbolKind.isDelimiter]

theorem step_eq_none {n : Nesting} {s : Symbol} : n.step s = none ↔ n.stopsAt s.kind = true := by
  rw [step]
  split <;> simp_all

theorem step_eq_some {n m : Nesting} {s : Symbol} (h : n.step s = some m) :
    n.stopsAt s.kind = false ∧ m = n.after s.kind := by
  rw [step] at h
  split at h
  · cases h
  · exact ⟨by simp_all, (Option.some.inj h).symm⟩

end Nesting

namespace SymbolStream

/-- A cut goes on in front of no symbol that stops it, and is made in front of
one. -/
theorem cutBy_step (n : Nesting) (symbols : List Symbol) :
    (∀ front s back, (cutBy Nesting.step n symbols).1 = front ++ s :: back →
      (n.through front).stopsAt s.kind = false) ∧
    ∀ s ∈ (cutBy Nesting.step n symbols).2.head?,
      (n.through (cutBy Nesting.step n symbols).1).stopsAt s.kind = true := by
  fun_induction cutBy Nesting.step n symbols with
  | case1 n =>
    refine ⟨fun front s back h => ?_, fun s hs => by cases hs⟩
    cases front <;> cases h
  | case2 n s symbols hstep =>
    refine ⟨fun front s back h => ?_, ?_⟩
    · cases front <;> cases h
    · rintro t ⟨⟩
      exact Nesting.step_eq_none.1 hstep
  | case3 n s symbols m hstep cut ih =>
    obtain ⟨hgoes, rfl⟩ := Nesting.step_eq_some hstep
    refine ⟨fun front t back h => ?_, ih.2⟩
    cases front with
    | nil =>
      cases (List.cons.inj h).1
      exact hgoes
    | cons first front =>
      obtain ⟨rfl, htail⟩ := List.cons.inj h
      exact ih.1 front t back htail

/-- What is taken for a name or an argument is a run. -/
theorem isRun_takeRun {s : SymbolStream} (hne : s.takeRun.1 ≠ []) :
    IsRun s.takeRun.1 s.takeRun.2.upcoming := by
  rw [takeRun, takeBy_fst] at hne
  rw [takeRun, takeBy_fst, upcoming_takeBy]
  obtain ⟨hgoes, hstops⟩ := cutBy_step {} s.upcoming
  have hstep : ∀ front t back, (cutBy Nesting.step {} s.upcoming).1 = front ++ t :: back →
      t.kind.isDelimiter = false ∧ (t.kind = .whitespace ∨ t.kind = .tilde → Nested front) := by
    intro front t back hfront
    have hnot := (Nesting.stopsAt_iff _ t.kind).not.1
      (by rw [hgoes front t back hfront]; exact Bool.false_ne_true)
    rw [not_or] at hnot
    refine ⟨by simpa using hnot.1, fun hblank => ?_⟩
    rw [← Nesting.isNested_through]
    by_contra hnone
    exact hnot.2 ⟨hblank, hnone⟩
  refine ⟨hne, ?_, fun front t back hfront => (hstep front t back hfront).2, ?_⟩
  · intro t ht
    obtain ⟨front, back, hfront⟩ := List.append_of_mem ht
    exact (hstep front t back hfront).1
  · intro t ht
    have hstop := (Nesting.stopsAt_iff _ t.kind).1 (hstops t ht)
    rwa [Nesting.isNested_through] at hstop

end SymbolStream

end BraceTemplate

import BraceTemplate.Proofs.Builder.Placing
import BraceTemplate.Proofs.Tag.Passes

/-!
# The loops make progress

The loop over text and tags has the loops inside tags in its passes. It goes on
behind a tag, whose opening delimiter it has taken, so the run comes to an end.
The passes are counted against the symbols of the whole source: what one tag
takes pays for all passes over it, and nothing is left to pay for but one pass
of each loop.
-/

namespace BraceTemplate

open SymbolStream

/-- The loop over text and tags: it returns behind text at the end, and else goes
on behind the tag there. -/
inductive RunsContent : SymbolStream → List Pass → SymbolStream → Prop
  | returns {s : SymbolStream} (hend : (Piece.readText s).2.current.isEnd) :
      RunsContent s [⟨.content, s, none⟩] (Piece.readText s).2
  | again {kind : TagKind} {s t u v : SymbolStream} {log more : List Pass}
      (hend : ¬ (Piece.readText s).2.current.isEnd)
      (hkind : TagKind.classify (Piece.readText s).2 = .ok (kind, t))
      (htag : RunsTag kind t log u) (h : RunsContent u more v) :
      RunsContent s (⟨.content, s, some u⟩ :: (log ++ more)) v

theorem Piece.exists_classify {s u : SymbolStream} {tag : Tag}
    (htag : Piece.readTag s = .ok (tag, u)) :
    ∃ kind t, TagKind.classify s = .ok (kind, t) ∧ Tag.read kind t = (tag, u) := by
  cases hkind : TagKind.classify s with
  | error fault =>
    rw [Piece.readTag, hkind] at htag
    cases htag
  | ok found =>
    refine ⟨found.1, found.2, rfl, ?_⟩
    rw [Piece.readTag_of_classify hkind] at htag
    exact Except.ok.inj htag

variable {s t : SymbolStream} {log : List Pass}

/-- Where all pieces are read, the loop over text and tags comes to an end. -/
theorem exists_runsContent {pieces : List Piece} (hread : Piece.readAll s = .ok (pieces, t)) :
    ∃ log, RunsContent s log t := by
  induction hn : s.upcoming.length using Nat.strongRecOn generalizing s pieces with
  | ind n ih =>
    rcases Piece.readAll_cases hread with ⟨hend, htext⟩ | ⟨hend, tag, u, more, htag, hmore, -⟩
    · have hrest : (Piece.readText s).2 = t := congrArg Prod.snd htext
      rw [← hrest]
      exact ⟨_, .returns hend⟩
    · have hlt := Nat.lt_of_lt_of_le (Piece.length_readTag_lt hend htag)
        (Piece.readText_suffix s).length_le
      obtain ⟨kind, v, hkind, hv⟩ := Piece.exists_classify htag
      obtain ⟨log, hlog⟩ := exists_runsTag kind v
      rw [hv] at hlog
      obtain ⟨more, hmore⟩ := ih _ (hn ▸ hlt) hmore rfl
      exact ⟨_, .again hend hkind hlog hmore⟩

theorem RunsContent.exists_readAll (h : RunsContent s log t) :
    ∃ pieces, Piece.readAll s = .ok (pieces, t) := by
  induction h with
  | returns hend => exact ⟨_, Piece.readAll_of_isEnd hend⟩
  | again hend hkind htag _ ih =>
    obtain ⟨pieces, hread⟩ := ih
    have hfirst := Piece.readTag_of_classify hkind
    rw [htag.eq_read] at hread
    exact ⟨_, Piece.readAll_of_readTag hend hfirst hread⟩

/-- A pass over text and a tag takes the text and the opening delimiter behind
it, and the tag may take more. -/
theorem Piece.exists_upcoming_eq {kind : TagKind} (hend : ¬ (Piece.readText s).2.current.isEnd)
    (hkind : TagKind.classify (Piece.readText s).2 = .ok (kind, t)) :
    ∃ more, s.upcoming =
      (Piece.takeText s).1 ++ (Piece.readText s).2.current :: more ++
        (Tag.read kind t).2.upcoming := by
  have hopen : t.current.kind.isOpenDelimiter = true := by
    rw [TagKind.current_of_classify hkind]
    exact Piece.current_readText hend
  have htag := (Tag.read_takes kind hopen).1.upcoming
  rw [TagKind.upcoming_of_classify hkind, TagKind.current_of_classify hkind] at htag
  refine ⟨Tag.extent t.advance.upcoming, ?_⟩
  rw [(Piece.readText_takes s).upcoming, htag, List.append_assoc]

theorem RunsContent.progresses (h : RunsContent s log t) {pass : Pass} (hpass : pass ∈ log) :
    pass.Progresses := by
  induction h with
  | returns =>
    rw [List.mem_singleton.1 hpass]
    exact Pass.progresses_of_returns _ _
  | again hend hkind htag _ ih =>
    rcases List.mem_cons.1 hpass with rfl | hpass
    · rintro next ⟨⟩
      obtain ⟨more, hmore⟩ := Piece.exists_upcoming_eq hend hkind
      rw [← htag.eq_read] at hmore
      exact ⟨_, hmore, _, _, more, rfl, Piece.current_readText hend,
        fun _ => Piece.isOpenDelimiter_of_mem_takeText⟩
    · rcases List.mem_append.1 hpass with hpass | hpass
      · exact htag.progresses hpass
      · exact ih hpass

/-- Every pass of a loop but one is paid for with a symbol. -/
theorem RunsContent.passes_le (h : RunsContent s log t) (loop : Loop) :
    loop.passes log + t.upcoming.length ≤ s.upcoming.length + 1 := by
  induction h with
  | @returns s hend =>
    have hle := (Piece.readText_suffix s).length_le
    have hone : loop.passes [⟨.content, s, none⟩] ≤ 1 := List.countP_le_length
    omega
  | @again kind s t u v log more hend hkind htag _ ih =>
    have htext := (Piece.readText_suffix s).length_le
    have hahead := congrArg List.length (TagKind.upcoming_of_classify hkind)
    have hopen : ¬ t.current.isEnd := by
      rw [TagKind.current_of_classify hkind]
      exact hend
    have hinside := htag.passes_le hopen loop
    simp only [Loop.passes_cons, Loop.passes_append]
    by_cases hloop : loop = .content
    · -- The passes inside the tag are none of this loop, so the delimiter pays for this one.
      subst hloop
      have hlt := Tag.length_read_lt kind hopen
      rw [← htag.eq_read] at hlt
      have hnone := htag.passes_content
      simp only [if_true]
      omega
    · simp only [Ne.symm hloop, if_false]
      omega

/-- Reading a source ends, and so does the run of the loops that it is. In any
such run, every pass over arguments and every pass at the end of a tag that does
not return has taken a symbol, and every pass over text and a tag the opening
delimiter of the tag. Each loop makes one pass more than there are symbols at
most. -/
theorem parse_progresses (source : String) (options : Options) :
    (∃ p pieces rest log, parse source options = .ok p ∧
      Piece.readAll (.ofSource source) = .ok (pieces, rest) ∧
      RunsContent (.ofSource source) log rest) ∧
    ∀ log rest, RunsContent (.ofSource source) log rest →
      (∃ pieces, Piece.readAll (.ofSource source) = .ok (pieces, rest)) ∧
      (∀ pass ∈ log, pass.Progresses) ∧
      ∀ loop : Loop, loop.passes log ≤ (symbols source).length + 1 := by
  refine ⟨?_, ?_⟩
  · obtain ⟨pieces, rest, hread, -, -⟩ := Piece.readAll_cut (s := .ofSource source) (Nat.zero_le _)
    obtain ⟨block, outer, ds, -, -, hparse⟩ := parse_of_readAll hread options
    obtain ⟨log, hlog⟩ := exists_runsContent hread
    exact ⟨_, pieces, rest, log, hparse, hread, hlog⟩
  · intro log rest h
    refine ⟨h.exists_readAll, fun pass => h.progresses, fun loop => ?_⟩
    have hle := h.passes_le loop
    rw [upcoming_ofSource] at hle
    omega

/-- Of the passes over the arguments in `{{a ~~ b}}`, one takes nothing between
the tildes, and it returns. -/
theorem parse_progresses_tildes : ∃ log rest, RunsContent (.ofSource "{{a ~~ b}}") log rest ∧
    (symbols "{{a ~~ b}}").length = 8 ∧ Loop.content.passes log = 2 ∧
    Loop.arguments.passes log = 4 ∧ Loop.ending.passes log = 3 ∧
    ∀ pass ∈ log, pass.Progresses := by
  have hkind : TagKind.classify (Piece.readText (.ofSource "{{a ~~ b}}")).2 = .ok (.expression,
      ⟨[(ofSource "{{a ~~ b}}").current, (ofSource "{{a ~~ b}}").advance.current],
        (ofSource "{{a ~~ b}}").advance.advance.scanner⟩) := by
    decide +kernel
  have hrun := RunsContent.again (by decide +kernel) hkind
    (.named nofun (.returns (by decide +kernel))
      (.again (by decide +kernel) (by decide +kernel) (.returns (by decide +kernel))
        (.again (by decide +kernel) (by decide +kernel)
          (.again (by decide +kernel) (.returns (by decide +kernel)))
          (.closed (by decide +kernel)))))
    (.returns (by decide +kernel))
  obtain ⟨-, hprogress, -⟩ := (parse_progresses "{{a ~~ b}}" {}).2 _ _ hrun
  exact ⟨_, _, hrun, by decide +kernel, rfl, rfl, rfl, hprogress⟩

end BraceTemplate

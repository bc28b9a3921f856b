import BraceTemplate.Proofs.Symbol.Fronts
import BraceTemplate.Proofs.Symbol.Modal

/-!
# The grammar inside tags

What a symbol inside a tag may be is told by its own characters and by what comes
behind them. `Matches` says it kind by kind: words and blanks are as long as they
can be, a quoted literal ends with the first quote that no backslash takes, and
braces are taken by threes and twos first. Nothing in it scans. The scanner hands
out what matches, and nothing else matches in front of it.
-/

namespace BraceTemplate

namespace Lexeme

/-! ### Numbers and quoted literals -/

/-- Decimal digits, at least one. -/
def Digits (cs : List Char) : Prop := cs ≠ [] ∧ ∀ c ∈ cs, '0' ≤ c ∧ c ≤ '9'

/-- Digits and perhaps a point with more digits behind. -/
def Unsigned (cs : List Char) : Prop :=
  ∃ digits fraction, cs = digits ++ fraction ∧ Digits digits ∧
    (fraction = [] ∨ ∃ more, fraction = '.' :: more ∧ Digits more)

/-- An unsigned number, perhaps with a minus sign in front. -/
def Numeral (cs : List Char) : Prop :=
  ∃ sign number, cs = sign ++ number ∧ (sign = [] ∨ sign = ['-']) ∧ Unsigned number

/-- What may stand between two quotes: a backslash takes the next character with
it, and all other characters but the quote stand for themselves. -/
inductive Units (q : Char) : List Char → Prop
  | nil : Units q []
  | escape (c : Char) {cs : List Char} (h : Units q cs) : Units q ('\\' :: c :: cs)
  | plain {c : Char} {cs : List Char} (hescape : c ≠ '\\') (hquote : c ≠ q) (h : Units q cs) :
      Units q (c :: cs)

/-- A quoted literal with both its quotes. -/
def Literal (cs : List Char) : Prop :=
  ∃ q body, (q = '"' ∨ q = '\'') ∧ Units q body ∧ cs = q :: (body ++ [q])

theorem areDigits_iff {cs : List Char} : areDigits cs = true ↔ Digits cs := by
  have hdigit : ∀ c : Char, c.isDigit = true ↔ '0' ≤ c ∧ c ≤ '9' := by
    intro c
    rw [Char.isDigit, Bool.and_eq_true, decide_eq_true_iff, decide_eq_true_iff]
    exact Iff.rfl
  rw [areDigits, Bool.and_eq_true, List.all_eq_true]
  simp only [hdigit, Digits]
  simp

theorem not_mem_of_digits {cs : List Char} (h : Digits cs) {c : Char} (hc : c ∈ cs) :
    (c != '.') = true ∧ c ≠ '-' := by
  obtain ⟨hlow, hhigh⟩ := h.2 c hc
  constructor
  · rw [bne_iff_ne]
    rintro rfl
    exact absurd hlow (by decide)
  · rintro rfl
    exact absurd hlow (by decide)

/-- A number without its sign is read by its first point. -/
theorem unsigned_iff {cs : List Char} :
    Unsigned cs ↔ (match cs.dropWhile (· != '.') with
      | [] => areDigits cs
      | _ :: fraction => areDigits (cs.takeWhile (· != '.')) && areDigits fraction) = true := by
  constructor
  · rintro ⟨digits, fraction, rfl, hdigits, hfraction⟩
    have hall : ∀ c ∈ digits, (c != '.') = true := fun c hc => (not_mem_of_digits hdigits hc).1
    rw [List.takeWhile_append_of_pos hall, List.dropWhile_append_of_pos hall]
    rcases hfraction with rfl | ⟨more, rfl, hmore⟩
    · simpa using areDigits_iff.2 hdigits
    · simp [areDigits_iff.2 hdigits, areDigits_iff.2 hmore]
  · have hcut := List.takeWhile_append_dropWhile (p := (· != '.')) (l := cs)
    have hpoint := List.head?_dropWhile_not (· != '.') cs
    split
    · intro h
      exact ⟨cs, [], (List.append_nil cs).symm, areDigits_iff.1 h, .inl rfl⟩
    · rename_i c fraction hdrop
      intro h
      rw [Bool.and_eq_true, areDigits_iff, areDigits_iff] at h
      rw [hdrop] at hcut hpoint
      have hc : c = '.' := by simpa using hpoint
      subst hc
      exact ⟨_, _, hcut.symm, h.1, .inr ⟨fraction, rfl, h.2⟩⟩

theorem isNumber_iff {cs : List Char} : isNumber cs = true ↔ Numeral cs := by
  have hfree : ∀ number, Unsigned number → number.head? ≠ some '-' := by
    rintro number ⟨digits, fraction, rfl, hdigits, -⟩ hhead
    rw [List.head?_append_of_ne_nil _ hdigits.1] at hhead
    exact (not_mem_of_digits hdigits (List.mem_of_head? hhead)).2 rfl
  have hread : isNumber cs = true ↔
      Unsigned (if cs.head? = some '-' then cs.tail else cs) := unsigned_iff.symm
  rw [hread]
  constructor
  · split
    · rename_i hsign
      intro h
      obtain ⟨rest, rfl⟩ := List.head?_eq_some_iff.1 hsign
      exact ⟨['-'], rest, rfl, .inr rfl, h⟩
    · exact fun h => ⟨[], cs, rfl, .inl rfl, h⟩
  · rintro ⟨sign, number, rfl, rfl | rfl, h⟩
    · rwa [List.nil_append, if_neg (hfree number h)]
    · exact h

theorem ne_backslash_of_quote {q : Char} (hq : q = '"' ∨ q = '\'') : q ≠ '\\' := by
  rcases hq with rfl | rfl <;> decide

/-- Where the body of a literal ends. -/
theorem quotedLength?_eq_some_iff {q : Char} (hq : q ≠ '\\') {cs : List Char} {n : Nat} :
    quotedLength? q cs = some n ↔
      ∃ body after, Units q body ∧ cs = body ++ q :: after ∧ n = body.length + 1 := by
  constructor
  · intro h
    fun_induction quotedLength? q cs generalizing n with
    | case1 c cs ih =>
      obtain ⟨m, hm, rfl⟩ := Option.map_eq_some_iff.1 h
      obtain ⟨body, after, hbody, rfl, rfl⟩ := ih hm
      exact ⟨'\\' :: c :: body, after, .escape c hbody, rfl, rfl⟩
    | case2 cs =>
      cases h
      exact ⟨[], cs, .nil, rfl, rfl⟩
    | case3 c cs hescape hc ih =>
      obtain ⟨m, hm, rfl⟩ := Option.map_eq_some_iff.1 h
      obtain ⟨body, after, hbody, rfl, rfl⟩ := ih hm
      refine ⟨c :: body, after, .plain ?_ hc hbody, rfl, rfl⟩
      rintro rfl
      cases body with
      | nil => exact hescape _ _ rfl rfl
      | cons d body => exact hescape _ _ rfl rfl
    | case4 => cases h
  · rintro ⟨body, after, hbody, rfl, rfl⟩
    induction hbody with
    | nil =>
      rw [List.nil_append, quotedLength?.eq_2, if_pos rfl]
      · rfl
      · exact fun _ _ heq => absurd heq hq
    | escape c _ ih =>
      rw [List.cons_append, List.cons_append, quotedLength?.eq_1, ih]
      rfl
    | plain hescape hquote _ ih =>
      rw [List.cons_append, quotedLength?.eq_2, if_neg hquote, ih]
      · rfl
      · exact fun _ _ heq => absurd heq hescape

/-! ### Symbols -/

/-- A text of characters of a sort that goes on as long as there are any. -/
structure Longest (p : Char → Bool) (text after : List Char) : Prop where
  nonempty : text ≠ []
  all : ∀ c ∈ text, p c = true
  stops : ∀ c ∈ after.head?, p c = false

/-- Characters that are symbols wherever they are looked at. -/
def plainMarks : List (Char × SymbolKind) :=
  [('[', .leftBracket), (']', .rightBracket), ('(', .leftParen), (')', .rightParen),
    ('|', .pipe), ('=', .assign), ('~', .tilde), ('#', .hash), ('/', .slash), ('!', .bang)]

/-- A text is a symbol of a kind inside a tag, where other text comes after it. -/
inductive Matches (raw : Bool) : SymbolKind → List Char → List Char → Prop
  | whitespace {text after : List Char} (h : Longest Text.isBlank text after) :
      Matches raw .whitespace text after
  | number {text after : List Char} (h : Longest isWordChar text after)
      (hnumeral : Numeral text) : Matches raw .number text after
  | keyword {text after : List Char} (h : Longest isWordChar text after)
      (hnumeral : ¬ Numeral text) (hkeyword : String.ofList text ∈ keywords) :
      Matches raw .keyword text after
  | identifier {text after : List Char} (h : Longest isWordChar text after)
      (hnumeral : ¬ Numeral text) (hkeyword : String.ofList text ∉ keywords) :
      Matches raw .identifier text after
  | string {text : List Char} (h : Literal text) (after : List Char) :
      Matches raw .string text after
  | error {q : Char} {body : List Char} (hq : q = '"' ∨ q = '\'')
      (hopen : ∀ front, front <+: q :: body → ¬ Literal front) :
      Matches raw .error (q :: body) []
  | leftBrace {after : List Char} (hsingle : after.head? ≠ some '{') :
      Matches raw .leftBrace ['{'] after
  | rightBrace {after : List Char} (hsingle : after.head? ≠ some '}') :
      Matches raw .rightBrace ['}'] after
  | mark {c : Char} {kind : SymbolKind} (h : (c, kind) ∈ plainMarks) (after : List Char) :
      Matches raw kind [c] after
  | openDelimiter {after : List Char} (hplain : after.head? ≠ some '{') :
      Matches raw .openDelimiter ['{', '{'] after
  | rawOpenDelimiter (after : List Char) :
      Matches raw .rawOpenDelimiter ['{', '{', '{'] after
  | closeDelimiter {after : List Char} (hplain : raw = true → after.head? ≠ some '}') :
      Matches raw .closeDelimiter ['}', '}'] after
  | rawCloseDelimiter (hraw : raw = true) (after : List Char) :
      Matches raw .rawCloseDelimiter ['}', '}', '}'] after

variable {raw : Bool}

/-- The characters of a sort that are in front are as many as there can be. -/
theorem longest_takeWhile {p : Char → Bool} {c : Char} (hc : p c = true) (cs : List Char) :
    ∃ text after, c :: cs = text ++ after ∧ (c :: cs).takeWhile p = text ∧
      Longest p text after := by
  refine ⟨_, _, List.takeWhile_append_dropWhile.symm, rfl, ?_, ?_, ?_⟩
  · rw [List.takeWhile_cons_of_pos hc]
    exact List.cons_ne_nil _ _
  · exact fun d hd => List.mem_takeWhile_imp hd
  · intro d hd
    have hstops := List.head?_dropWhile_not p (c :: cs)
    rw [Option.mem_def.1 hd] at hstops
    simpa using hstops

/-- A word matches as the kind that it is given. -/
theorem matches_word {text after : List Char} (h : Longest isWordChar text after) :
    Matches raw (wordKind text) text after := by
  unfold wordKind
  split
  · rename_i hnumber
    exact .number h (isNumber_iff.1 hnumber)
  · rename_i hnumber
    have hnumeral : ¬ Numeral text := fun h => hnumber (isNumber_iff.2 h)
    split
    · rename_i hkeyword
      exact .keyword h hnumeral (by simpa using hkeyword)
    · rename_i hkeyword
      exact .identifier h hnumeral (by simpa using hkeyword)

theorem matches_opening (cs : List Char) :
    Matches raw (opening cs).kind (('{' :: '{' :: cs).take (opening cs).length)
      (('{' :: '{' :: cs).drop (opening cs).length) := by
  unfold opening
  split
  · rename_i hbrace
    obtain ⟨rest, rfl⟩ := List.head?_eq_some_iff.1 hbrace
    exact .rawOpenDelimiter rest
  · rename_i hbrace
    exact .openDelimiter hbrace

theorem matches_closing (cs : List Char) :
    Matches raw (closing raw cs).kind (('}' :: '}' :: cs).take (closing raw cs).length)
      (('}' :: '}' :: cs).drop (closing raw cs).length) := by
  unfold closing
  split
  · rename_i hbrace
    obtain ⟨hraw, hhead⟩ := Bool.and_eq_true_iff.1 hbrace
    obtain ⟨rest, rfl⟩ := List.head?_eq_some_iff.1 (decide_eq_true_iff.1 hhead)
    exact .rawCloseDelimiter hraw rest
  · rename_i hbrace
    refine .closeDelimiter fun hraw hhead => hbrace ?_
    exact Bool.and_eq_true_iff.2 ⟨hraw, decide_eq_true hhead⟩

theorem matches_markKind? {c : Char} {cs : List Char} {kind : SymbolKind}
    (hkind : markKind? c = some kind) (hopen : ∀ rest, ¬ (c = '{' ∧ cs = '{' :: rest))
    (hclose : ∀ rest, ¬ (c = '}' ∧ cs = '}' :: rest)) : Matches raw kind [c] cs := by
  have hleaves := leaves_markKind? hkind hopen hclose
  revert hkind
  fun_cases markKind? c with
  | case1 => rintro ⟨⟩; exact .leftBrace hleaves
  | case2 => rintro ⟨⟩; exact .rightBrace hleaves
  | _ => intro h; cases h <;> exact .mark (by decide) cs

theorem matches_quoted {q : Char} (hq : isQuote q = true) (cs : List Char) :
    Matches raw (quoted raw q cs).kind ((q :: cs).take (quoted raw q cs).length)
      ((q :: cs).drop (quoted raw q cs).length) := by
  have hquote : q = '"' ∨ q = '\'' := by simpa [isQuote] using hq
  have hescape := ne_backslash_of_quote hquote
  unfold quoted
  split
  · rename_i n hlength
    obtain ⟨body, after, hbody, rfl, rfl⟩ := (quotedLength?_eq_some_iff hescape).1 hlength
    have hcs : q :: (body ++ q :: after) = q :: (body ++ [q]) ++ after := by simp
    have hlen : body.length + 1 + 1 = (q :: (body ++ [q])).length := by simp
    simp only [hcs, hlen, List.take_left, List.drop_left]
    exact .string ⟨q, body, hquote, hbody, rfl⟩ after
  · rename_i hlength
    have hlen : cs.length + 1 = (q :: cs).length := rfl
    simp only [hlen, List.take_length, List.drop_length]
    refine .error hquote ?_
    rintro front ⟨after, hfront⟩ ⟨r, body, -, hbody, rfl⟩
    obtain ⟨rfl, rfl⟩ := List.cons.inj hfront
    have hcs : body ++ [r] ++ after = body ++ r :: after := (List.append_cons ..).symm
    have hfound := (quotedLength?_eq_some_iff hescape).2 ⟨body, after, hbody, hcs, rfl⟩
    cases hfound.symm.trans hlength

/-- What the scanner takes inside a tag matches. -/
theorem matches_inTag {cs : List Char} (hne : cs ≠ []) :
    Matches raw (inTag raw cs).kind (cs.take (inTag raw cs).length)
      (cs.drop (inTag raw cs).length) := by
  fun_cases inTag raw cs with
  | case1 cs => exact matches_closing cs
  | case2 cs => exact matches_opening cs
  | case3 cs => exact .mark (by decide : ('!', SymbolKind.bang) ∈ plainMarks) cs
  | case4 c cs hclose hopen _ kind hkind =>
    exact matches_markKind? hkind (by simpa using hopen) (by simpa using hclose)
  | case5 c cs _ _ _ _ hquote => exact matches_quoted hquote cs
  | case6 c cs _ _ _ _ _ hblank =>
    obtain ⟨text, after, hcs, htaken, hlongest⟩ := longest_takeWhile hblank cs
    simp only [blank, htaken]
    rw [hcs, List.take_left, List.drop_left]
    exact .whitespace hlongest
  | case7 c cs _ _ hbang hmark hquote hblank =>
    have hword : isWordChar c = true :=
      isWordChar_of_not_mark (by simpa using hbang) hmark (by simpa using hquote)
        (by simpa using hblank)
    obtain ⟨text, after, hcs, htaken, hlongest⟩ := longest_takeWhile hword cs
    simp only [word, htaken]
    rw [hcs, List.take_left, List.drop_left]
    exact matches_word hlongest
  | case8 => exact absurd rfl hne

theorem inTag_quote {q : Char} (hq : q = '"' ∨ q = '\'') (cs : List Char) :
    inTag raw (q :: cs) = quoted raw q cs := by
  rcases hq with rfl | rfl <;> rfl

/-- A brace is a mark where it is not doubled. -/
theorem inTag_brace {c : Char} (hc : c = '{' ∨ c = '}') {cs : List Char}
    (hsingle : cs.head? ≠ some c) :
    ∃ kind, markKind? c = some kind ∧ inTag raw (c :: cs) = ⟨kind, 1, .tag raw⟩ := by
  have hopen : ∀ rest, c = '{' → cs = '{' :: rest → False := by
    rintro rest rfl rfl
    exact hsingle rfl
  have hclose : ∀ rest, c = '}' → cs = '}' :: rest → False := by
    rintro rest rfl rfl
    exact hsingle rfl
  rcases hc with rfl | rfl
  · exact ⟨.leftBrace, rfl, by rw [inTag.eq_4 _ _ _ hclose hopen (by decide)]; rfl⟩
  · exact ⟨.rightBrace, rfl, by rw [inTag.eq_4 _ _ _ hclose hopen (by decide)]; rfl⟩

/-- What matches in front of a rest is what the scanner takes off it. -/
theorem Matches.inTag_eq {kind : SymbolKind} {text after : List Char}
    (h : Matches raw kind text after) :
    (inTag raw (text ++ after)).kind = kind ∧
      (inTag raw (text ++ after)).length = text.length := by
  cases h with
  | whitespace h => simp only [inTag_blank h.nonempty h.all h.stops, and_self]
  | number h hnumeral =>
    simp [inTag_word h.nonempty h.all h.stops, wordKind, isNumber_iff.2 hnumeral]
  | keyword h hnumeral hkeyword =>
    simp [inTag_word h.nonempty h.all h.stops, wordKind, isNumber_iff, hnumeral, hkeyword]
  | identifier h hnumeral hkeyword =>
    simp [inTag_word h.nonempty h.all h.stops, wordKind, isNumber_iff, hnumeral, hkeyword]
  | string h =>
    obtain ⟨q, body, hq, hbody, rfl⟩ := h
    have hescape := ne_backslash_of_quote hq
    have hcs : body ++ [q] ++ after = body ++ q :: after := (List.append_cons ..).symm
    have hlength := (quotedLength?_eq_some_iff hescape).2 ⟨body, after, hbody, hcs, rfl⟩
    rw [List.cons_append, inTag_quote hq, quoted, hlength]
    exact ⟨rfl, by simp⟩
  | @error q body hq hopen =>
    have hescape := ne_backslash_of_quote hq
    have hlength : quotedLength? q body = none := by
      by_contra hsome
      obtain ⟨n, hn⟩ := Option.ne_none_iff_exists'.1 hsome
      obtain ⟨units, more, hunits, rfl, -⟩ := (quotedLength?_eq_some_iff hescape).1 hn
      exact hopen (q :: (units ++ [q])) ⟨more, by simp⟩ ⟨q, units, hq, hunits, rfl⟩
    rw [List.append_nil, inTag_quote hq, quoted, hlength]
    exact ⟨rfl, rfl⟩
  | leftBrace hsingle =>
    obtain ⟨kind, hkind, hlexeme⟩ := @inTag_brace raw _ (.inl rfl) _ hsingle
    cases hkind
    exact ⟨congrArg kind hlexeme, congrArg length hlexeme⟩
  | rightBrace hsingle =>
    obtain ⟨kind, hkind, hlexeme⟩ := @inTag_brace raw _ (.inr rfl) _ hsingle
    cases hkind
    exact ⟨congrArg kind hlexeme, congrArg length hlexeme⟩
  | mark h =>
    simp only [plainMarks, List.mem_cons, List.not_mem_nil, or_false, Prod.mk.injEq] at h
    rcases h with ⟨rfl, rfl⟩ | ⟨rfl, rfl⟩ | ⟨rfl, rfl⟩ | ⟨rfl, rfl⟩ | ⟨rfl, rfl⟩ | ⟨rfl, rfl⟩ |
      ⟨rfl, rfl⟩ | ⟨rfl, rfl⟩ | ⟨rfl, rfl⟩ | ⟨rfl, rfl⟩ <;> exact ⟨rfl, rfl⟩
  | openDelimiter hplain =>
    have hlexeme : opening after = ⟨.openDelimiter, 2, .tag false⟩ := if_neg hplain
    exact ⟨congrArg kind hlexeme, congrArg length hlexeme⟩
  | rawOpenDelimiter => exact ⟨rfl, rfl⟩
  | closeDelimiter hplain =>
    have hlexeme : closing raw after = ⟨.closeDelimiter, 2, .content⟩ := by
      refine if_neg fun hbrace => ?_
      obtain ⟨hraw, hhead⟩ := Bool.and_eq_true_iff.1 hbrace
      exact hplain hraw (decide_eq_true_iff.1 hhead)
    exact ⟨congrArg kind hlexeme, congrArg length hlexeme⟩
  | rawCloseDelimiter hraw =>
    subst hraw
    exact ⟨rfl, rfl⟩

/-- Inside a tag only a comment is taken in another way. -/
theorem next_eq_inTag {mode : Mode} {cs : List Char} (hinside : mode.raw? = some raw)
    (hkind : (next mode cs).kind ≠ .comment) : next mode cs = inTag raw cs := by
  cases mode with
  | content => cases hinside
  | tag r =>
    cases hinside
    rfl
  | comment r =>
    cases hinside
    change (inComment raw cs).kind ≠ .comment at hkind
    change inComment raw cs = inTag raw cs
    unfold inComment at hkind ⊢
    split at hkind
    · rfl
    · exact absurd rfl hkind

end Lexeme

open Lexeme Scanner

namespace Scanner

variable {s : Scanner} {raw : Bool}

/-- Inside a tag the next symbol matches, unless it is a comment, and nothing else
in front of the scanner does. -/
theorem matches_current (hrest : s.rest ≠ []) (hinside : s.mode.raw? = some raw)
    (hkind : s.current.kind ≠ .comment) :
    Matches raw s.current.kind s.nextText s.advance.rest ∧
      ∀ kind text more, text ++ more = s.rest → Matches raw kind text more →
        kind = s.current.kind ∧ text = s.nextText := by
  rw [kind_current hrest] at hkind ⊢
  have hnext := next_eq_inTag hinside hkind
  rw [rest_advance hrest, nextText, hnext]
  refine ⟨matches_inTag hrest, ?_⟩
  intro kind text more hcs hother
  obtain ⟨hsame, hlength⟩ := hother.inTag_eq
  rw [hcs] at hsame hlength
  refine ⟨hsame.symm, ?_⟩
  rw [hlength, ← hcs, List.take_left]

end Scanner

/-- A symbol inside a tag, unless it is a comment, matches as its kind, and nothing
else that starts where it does matches as any kind. -/
theorem symbol_matches {source : String} {before after : List Symbol} {s : Symbol} {raw : Bool}
    (h : symbols source = before ++ s :: after) (hopen : openTag? before = some raw)
    (hkind : s.kind ≠ .comment) :
    ∃ front rest,
      Text.splitAt? source.toList s.location.start = some (front, s.text.toList ++ rest) ∧
      Matches raw s.kind s.text.toList rest ∧
      (∀ kind text more, text ++ more = s.text.toList ++ rest → Matches raw kind text more →
        kind = s.kind ∧ text = s.text.toList) ∧
      (raw = true → ['}', '}', '}'] <+: s.text.toList ++ rest →
        s.kind = .rawCloseDelimiter ∧ s.text.toList = ['}', '}', '}']) := by
  obtain ⟨hrest, rfl, -⟩ := current_behind h
  obtain ⟨front, hsource, hposition⟩ := inside_behind source before.length
  rw [openTag?_before h] at hopen
  generalize behind source before.length = t at hrest hopen hkind hsource hposition ⊢
  obtain ⟨hmatches, hunique⟩ := matches_current hrest hopen hkind
  have hcurrent : t.current.text.toList = t.nextText := by
    rw [current_of_rest_ne_nil hrest, String.toList_ofList]
  have hstart : t.current.location.start = t.position := by rw [current_of_rest_ne_nil hrest]
  refine ⟨front, t.advance.rest, ?_, ?_⟩
  · rw [hcurrent, hstart, nextText_append_rest hrest, hposition, hsource]
    exact Text.splitAt?_append front t.rest
  · rw [hcurrent, nextText_append_rest hrest]
    refine ⟨hmatches, hunique, ?_⟩
    rintro rfl ⟨more, hclose⟩
    obtain ⟨hsame, htext⟩ := hunique _ _ more hclose (.rawCloseDelimiter rfl more)
    exact ⟨hsame.symm, htext.symm⟩

/-- A raw tag with an escaped quote: `{{{a'\'' b}}}`. -/
def quotedInTag : String := "\x7b\x7b\x7ba'\\'' b\x7d\x7d\x7d"

/-- The quote behind the backslash does not end the literal. -/
theorem symbol_matches_escaped :
    (∃ before after, symbols quotedInTag = before ++ ⟨.string, ⟨4, 8⟩, "'\\''"⟩ :: after ∧
      openTag? before = some true) ∧
    Matches true .string "'\\''".toList " b\x7d\x7d\x7d".toList ∧
    ∀ kind text more, text ++ more = "'\\'' b\x7d\x7d\x7d".toList → Matches true kind text more →
      kind = .string ∧ text = "'\\''".toList := by
  have hsymbols : symbols quotedInTag = (symbols quotedInTag).take 2 ++
      ⟨.string, ⟨4, 8⟩, "'\\''"⟩ :: (symbols quotedInTag).drop 3 := by
    decide +kernel
  have hopen : openTag? ((symbols quotedInTag).take 2) = some true := by decide +kernel
  obtain ⟨front, rest, hsplit, hmatches, hunique, -⟩ := symbol_matches hsymbols hopen (by decide)
  have hbehind : Text.splitAt? quotedInTag.toList 4 =
      some ("\x7b\x7b\x7ba".toList, "'\\''".toList ++ " b\x7d\x7d\x7d".toList) := by
    decide
  obtain ⟨-, hrest⟩ := Prod.mk.inj (Option.some.inj (hbehind.symm.trans hsplit))
  obtain rfl := List.append_cancel_left hrest
  exact ⟨⟨_, _, hsymbols, hopen⟩, hmatches, hunique⟩

end BraceTemplate

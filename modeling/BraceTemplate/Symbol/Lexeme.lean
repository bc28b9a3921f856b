import BraceTemplate.Symbol.Basic

/-!
# Lexemes

How many characters the next symbol takes, what kind it has and how scanning
goes on, from the rest of the source and the scanning mode alone. Positions do
not matter here. Every lexeme of a nonempty rest is nonempty and fits into it.
-/

namespace BraceTemplate

namespace Text

/-- First and last code point of each range of White_Space. -/
def blankRanges : List (Nat × Nat) :=
  [(0x09, 0x0D), (0x20, 0x20), (0x85, 0x85), (0xA0, 0xA0), (0x1680, 0x1680), (0x2000, 0x200A),
   (0x2028, 0x2029), (0x202F, 0x202F), (0x205F, 0x205F), (0x3000, 0x3000)]

/-- Whether a character has the property White_Space. -/
def isBlank (c : Char) : Bool :=
  blankRanges.any fun (first, last) => first ≤ c.toNat && c.toNat ≤ last

end Text

/-- What the scanner is inside of. `raw` tells tags with three braces. -/
inductive Mode where
  | content
  | tag (raw : Bool)
  /-- Right after the `!` of a comment tag. -/
  | comment (raw : Bool)
deriving DecidableEq, Repr

/-- Kind and number of characters of a symbol, and the mode after it. -/
structure Lexeme where
  kind : SymbolKind
  length : Nat
  mode : Mode
deriving DecidableEq, Repr

namespace Lexeme

/-! ### Literal text -/

/-- Characters before the next opening delimiter. A backslash in front of two
braces makes all three literal. -/
def textLength : List Char → Nat
  | '\\' :: '{' :: '{' :: cs => textLength cs + 3
  | '{' :: '{' :: _ => 0
  | _ :: cs => textLength cs + 1
  | [] => 0

/-! ### Words -/

/-- Characters that are marks of their own inside a tag. -/
def marks : List Char :=
  ['{', '}', '[', ']', '(', ')', '|', '=', '~', '#', '!', '"', '\'', '/']

def isWordChar (c : Char) : Bool := !Text.isBlank c && !marks.contains c

def areDigits (cs : List Char) : Bool := !cs.isEmpty && cs.all Char.isDigit

/-- Digits, perhaps with a minus sign in front, perhaps with a point and more
digits behind. -/
def isNumber (cs : List Char) : Bool :=
  let unsigned := if cs.head? = some '-' then cs.tail else cs
  match unsigned.dropWhile (· != '.') with
  | [] => areDigits unsigned
  | _ :: fraction => areDigits (unsigned.takeWhile (· != '.')) && areDigits fraction

def wordKind (cs : List Char) : SymbolKind :=
  if isNumber cs then .number
  else if keywords.contains (String.ofList cs) then .keyword
  else .identifier

/-! ### Quoted literals -/

def isQuote (c : Char) : Bool := c == '"' || c == '\''

/-- Characters through the closing quote, if there is one. A backslash takes
the next character with it. -/
def quotedLength? (q : Char) : List Char → Option Nat
  | '\\' :: _ :: cs => (quotedLength? q cs).map (· + 2)
  | c :: cs => if c = q then some 1 else (quotedLength? q cs).map (· + 1)
  | [] => none

/-! ### Comments -/

def closeDelimiter (raw : Bool) : List Char :=
  if raw then ['}', '}', '}'] else ['}', '}']

/-- Whether a comment body may end here: at the closing delimiter, or at a `~`
right before it. -/
def bodyEnds (raw : Bool) (cs : List Char) : Bool :=
  (closeDelimiter raw).isPrefixOf cs || ('~' :: closeDelimiter raw).isPrefixOf cs

/-- A short body runs to the first place where it may end, or takes all. -/
def shortBodyLength (raw : Bool) : List Char → Nat
  | [] => 0
  | c :: cs => if bodyEnds raw (c :: cs) then 0 else shortBodyLength raw cs + 1

/-- Characters through the first `--` after which a body may end. -/
def dashesLength? (raw : Bool) : List Char → Option Nat
  | [] => none
  | c :: cs =>
    if ['-', '-'].isPrefixOf (c :: cs) && bodyEnds raw (cs.drop 1) then some 2
    else (dashesLength? raw cs).map (· + 1)

/-- A body that starts with `--` runs through a second `--` after which it may
end, so it can hold closing delimiters. -/
def longBodyLength? (raw : Bool) (cs : List Char) : Option Nat :=
  if ['-', '-'].isPrefixOf cs then (dashesLength? raw (cs.drop 2)).map (· + 2) else none

/-- The long body where there is one, and the short one elsewhere. -/
def bodyLength (raw : Bool) (cs : List Char) : Nat :=
  (longBodyLength? raw cs).getD (shortBodyLength raw cs)

/-! ### The next lexeme -/

/-- The opening delimiter whose first two braces are in front of `cs`. -/
def opening (cs : List Char) : Lexeme :=
  if cs.head? = some '{' then ⟨.rawOpenDelimiter, 3, .tag true⟩
  else ⟨.openDelimiter, 2, .tag false⟩

/-- The closing delimiter whose first two braces are in front of `cs`. Three
braces close raw tags only. -/
def closing (raw : Bool) (cs : List Char) : Lexeme :=
  if raw && cs.head? = some '}' then ⟨.rawCloseDelimiter, 3, .content⟩
  else ⟨.closeDelimiter, 2, .content⟩

def inContent : List Char → Lexeme
  | '{' :: '{' :: cs => opening cs
  | cs => ⟨.text, textLength cs, .content⟩

/-- Symbols of one character after which the tag goes on. -/
def markKind? : Char → Option SymbolKind
  | '{' => some .leftBrace
  | '}' => some .rightBrace
  | '[' => some .leftBracket
  | ']' => some .rightBracket
  | '(' => some .leftParen
  | ')' => some .rightParen
  | '|' => some .pipe
  | '=' => some .assign
  | '~' => some .tilde
  | '#' => some .hash
  | '/' => some .slash
  | _ => none

def quoted (raw : Bool) (q : Char) (cs : List Char) : Lexeme :=
  match quotedLength? q cs with
  | some n => ⟨.string, n + 1, .tag raw⟩
  | none => ⟨.error, cs.length + 1, .tag raw⟩

def blank (raw : Bool) (cs : List Char) : Lexeme :=
  ⟨.whitespace, (cs.takeWhile Text.isBlank).length, .tag raw⟩

def word (raw : Bool) (cs : List Char) : Lexeme :=
  let text := cs.takeWhile isWordChar
  ⟨wordKind text, text.length, .tag raw⟩

def inTag (raw : Bool) : List Char → Lexeme
  | '}' :: '}' :: cs => closing raw cs
  | '{' :: '{' :: cs => opening cs
  | '!' :: _ => ⟨.bang, 1, .comment raw⟩
  | c :: cs =>
    match markKind? c with
    | some kind => ⟨kind, 1, .tag raw⟩
    | none =>
      if isQuote c then quoted raw c cs
      else if Text.isBlank c then blank raw (c :: cs)
      else word raw (c :: cs)
  | [] => ⟨.eof, 0, .tag raw⟩

/-- An empty comment body makes no symbol. -/
def inComment (raw : Bool) (cs : List Char) : Lexeme :=
  match bodyLength raw cs with
  | 0 => inTag raw cs
  | n + 1 => ⟨.comment, n + 1, .tag raw⟩

/-- The lexeme at the front of a nonempty rest. -/
def next : Mode → List Char → Lexeme
  | .content, cs => inContent cs
  | .tag raw, cs => inTag raw cs
  | .comment raw, cs => inComment raw cs

/-! ### Bounds -/

theorem textLength_le (cs : List Char) : textLength cs ≤ cs.length := by
  fun_induction textLength cs <;> simp <;> omega

theorem quotedLength?_le {q : Char} {cs : List Char} {n : Nat}
    (h : quotedLength? q cs = some n) : n ≤ cs.length := by
  fun_induction quotedLength? q cs generalizing n with
  | case1 c cs ih =>
    obtain ⟨m, hm, rfl⟩ := Option.map_eq_some_iff.1 h
    have := ih hm
    simp; omega
  | case2 cs => simp at h; simp [← h]
  | case3 c cs _ _ ih =>
    obtain ⟨m, hm, rfl⟩ := Option.map_eq_some_iff.1 h
    have := ih hm
    simp; omega
  | case4 => simp at h

theorem shortBodyLength_le (raw : Bool) (cs : List Char) :
    shortBodyLength raw cs ≤ cs.length := by
  fun_induction shortBodyLength raw cs with
  | case1 => simp
  | case2 => simp
  | case3 c cs _ ih => simpa using ih

theorem dashesLength?_le {raw : Bool} {cs : List Char} {n : Nat}
    (h : dashesLength? raw cs = some n) : n ≤ cs.length := by
  fun_induction dashesLength? raw cs generalizing n with
  | case1 => simp at h
  | case2 c cs hend =>
    cases cs with
    | nil => simp at hend
    | cons d cs => simp at h; simp [← h]
  | case3 c cs _ ih =>
    obtain ⟨m, hm, rfl⟩ := Option.map_eq_some_iff.1 h
    have := ih hm
    simp; omega

theorem longBodyLength?_le {raw : Bool} {cs : List Char} {n : Nat}
    (h : longBodyLength? raw cs = some n) : n ≤ cs.length := by
  unfold longBodyLength? at h
  split at h
  · rename_i hdashes
    have hlen : 2 ≤ cs.length := by
      simpa using (List.isPrefixOf_iff_prefix.1 hdashes).length_le
    obtain ⟨m, hm, rfl⟩ := Option.map_eq_some_iff.1 h
    have := dashesLength?_le hm
    simp at this
    omega
  · simp at h

theorem bodyLength_le (raw : Bool) (cs : List Char) : bodyLength raw cs ≤ cs.length := by
  unfold bodyLength
  cases h : longBodyLength? raw cs with
  | none => exact shortBodyLength_le raw cs
  | some n => exact longBodyLength?_le h

theorem textLength_pos {cs : List Char} (hne : cs ≠ [])
    (h : ∀ rest, cs ≠ '{' :: '{' :: rest) : 0 < textLength cs := by
  fun_cases textLength cs with
  | case1 => omega
  | case2 rest => exact absurd rfl (h rest)
  | case3 => omega
  | case4 => exact absurd rfl hne

theorem opening_length (cs : List Char) :
    2 ≤ (opening cs).length ∧ (opening cs).length ≤ cs.length + 2 := by
  unfold opening
  split
  · cases cs <;> simp_all
  · simp

theorem closing_length (raw : Bool) (cs : List Char) :
    2 ≤ (closing raw cs).length ∧ (closing raw cs).length ≤ cs.length + 2 := by
  unfold closing
  split
  · cases cs <;> simp_all
  · simp

/-- A character that starts no other symbol starts a word. -/
theorem isWordChar_of_not_mark {c : Char} (hbang : c ≠ '!') (hmark : markKind? c = none)
    (hquote : isQuote c = false) (hblank : Text.isBlank c = false) : isWordChar c := by
  unfold isWordChar
  rw [hblank]
  simp only [Bool.not_false, Bool.true_and, Bool.not_eq_true', List.contains_eq_mem,
    decide_eq_false_iff_not]
  intro hmem
  simp only [marks, List.mem_cons, List.not_mem_nil, or_false] at hmem
  rcases hmem with rfl | rfl | rfl | rfl | rfl | rfl | rfl | rfl | rfl | rfl | rfl | rfl | rfl | rfl
    <;> first
      | exact absurd rfl hbang
      | exact absurd hmark (by decide)
      | exact absurd hquote (by decide)

theorem inContent_length {cs : List Char} (hne : cs ≠ []) :
    0 < (inContent cs).length ∧ (inContent cs).length ≤ cs.length := by
  fun_cases inContent cs with
  | case1 rest => have := opening_length rest; simp; omega
  | case2 _ h => exact ⟨textLength_pos hne h, textLength_le cs⟩

theorem inTag_length (raw : Bool) {cs : List Char} (hne : cs ≠ []) :
    0 < (inTag raw cs).length ∧ (inTag raw cs).length ≤ cs.length := by
  fun_cases inTag raw cs with
  | case1 rest => have := closing_length raw rest; simp; omega
  | case2 rest => have := opening_length rest; simp; omega
  | case3 => simp
  | case4 => simp
  | case5 c cs =>
    unfold quoted
    split
    · rename_i h
      have := quotedLength?_le h
      simp; omega
    · simp
  | case6 c cs _ _ _ _ _ hblank =>
    have := (List.takeWhile_prefix Text.isBlank (l := c :: cs)).length_le
    simp [blank, hblank] at this ⊢
    omega
  | case7 c cs hclose hopen hbang hmark hquote hblank =>
    have hword : isWordChar c :=
      isWordChar_of_not_mark (by simpa using hbang) hmark (by simpa using hquote)
        (by simpa using hblank)
    have := (List.takeWhile_prefix isWordChar (l := c :: cs)).length_le
    simp [word, hword] at this ⊢
    omega
  | case8 => exact absurd rfl hne

/-- A lexeme of a nonempty rest is nonempty and lies in it. -/
theorem next_length (mode : Mode) {cs : List Char} (hne : cs ≠ []) :
    0 < (next mode cs).length ∧ (next mode cs).length ≤ cs.length := by
  cases mode with
  | content => exact inContent_length hne
  | tag raw => exact inTag_length raw hne
  | comment raw =>
    show 0 < (inComment raw cs).length ∧ (inComment raw cs).length ≤ cs.length
    unfold inComment
    have := bodyLength_le raw cs
    split
    · exact inTag_length raw hne
    · rename_i n hn
      rw [hn] at this
      exact ⟨Nat.succ_pos n, this⟩

theorem wordKind_ne_eof (cs : List Char) : wordKind cs ≠ .eof := by
  unfold wordKind
  split
  · simp
  · split <;> simp

theorem inTag_kind_ne_eof (raw : Bool) {cs : List Char} (hne : cs ≠ []) :
    (inTag raw cs).kind ≠ .eof := by
  fun_cases inTag raw cs with
  | case1 => unfold closing; split <;> simp
  | case2 => unfold opening; split <;> simp
  | case3 => simp
  | case4 c cs _ _ _ kind hkind =>
    intro h
    subst h
    revert hkind
    fun_cases markKind? c <;> simp
  | case5 => unfold quoted; split <;> simp
  | case6 => simp [blank]
  | case7 => exact wordKind_ne_eof _
  | case8 => exact absurd rfl hne

/-- Only the end of the source is marked as such. -/
theorem next_kind_ne_eof (mode : Mode) {cs : List Char} (hne : cs ≠ []) :
    (next mode cs).kind ≠ .eof := by
  cases mode with
  | content =>
    show (inContent cs).kind ≠ .eof
    fun_cases inContent cs with
    | case1 => unfold opening; split <;> simp
    | case2 => simp
  | tag raw => exact inTag_kind_ne_eof raw hne
  | comment raw =>
    show (inComment raw cs).kind ≠ .eof
    unfold inComment
    split
    · exact inTag_kind_ne_eof raw hne
    · simp

end Lexeme

end BraceTemplate

import BraceTemplate.Parser

/-!
# Written templates

Templates as a syntax of their own, from which sources are written. What is
written for a tag is a list of parts, each of which becomes one span, and a part
is a list of tokens, each of which becomes one symbol. Tags of blocks stand
around what is inside them, so a template is written one fragment after the
other.
-/

namespace BraceTemplate

namespace Template

/-! ### Words and arguments -/

structure Word where
  chars : List Char
  nonempty : chars ≠ []
  wordChars : ∀ c ∈ chars, Lexeme.isWordChar c = true

/-- Blanks that stand in front of something. -/
structure Gap where
  chars : List Char
  nonempty : chars ≠ []
  blank : ∀ c ∈ chars, Text.isBlank c = true

inductive Arg where
  | word (word : Word)
  | pair (key value : Word) (hkey : Lexeme.isNumber key.chars = false)
  | quoted (chars : List Char) (hchars : ∀ c ∈ chars, c ≠ '"' ∧ c ≠ '\\')
  /-- Words between parentheses. -/
  | group (first : Word) (others : List (Gap × Word))

/-- Each argument with the blanks in front of it. -/
abbrev Args := List (Gap × Arg)

/-- Text between tags. -/
structure Plain where
  chars : List Char
  nonempty : chars ≠ []
  plain : ∀ c ∈ chars, c ≠ '{' ∧ c ≠ '\\'

inductive Comment where
  | short (chars : List Char) (hchars : ∀ c ∈ chars, c ≠ '}' ∧ c ≠ '~')
      (hdashes : ¬ ['-', '-'] <+: chars)
  /-- Between two pairs of dashes. -/
  | long (chars : List Char) (hchars : ∀ c ∈ chars, c ≠ '}')

namespace Word

def text (w : Word) : String := String.ofList w.chars

/-- The word of a tag that continues a branch block. -/
def «else» : Word := ⟨['e', 'l', 's', 'e'], by decide, List.all_eq_true.mp rfl⟩

def «elseif» : Word :=
  ⟨['e', 'l', 's', 'e', 'i', 'f'], by decide, List.all_eq_true.mp rfl⟩

end Word

/-- A name that continues no branch block. -/
structure Name where
  word : Word
  ne_else : word.text ≠ "else"
  ne_elseif : word.text ≠ "elseif"

/-! ### Items -/

/-- A tag that stands for itself. The last three stand in branch blocks only. -/
inductive Single where
  | expression (raw : Bool) (name : Name) (args : Args)
  | comment (comment : Comment)
  | «else» (args : Args)
  | «elseif» (args : Args)
  | hashElseif (args : Args)

def Single.isBranch : Single → Bool
  | expression .. | comment _ => false
  | «else» _ | «elseif» _ | hashElseif _ => true

inductive Item where
  | text (text : Plain)
  | single (tag : Single)
  | block (name : Name) (args : Args) (body : List Item)

namespace Item

def isText : Item → Bool
  | text _ => true
  | _ => false

mutual

/-- Whether an item may stand directly in a branch block or not. Tags of
branches may only stand there. -/
def fits (options : Options) (inBranch : Bool) : Item → Bool
  | text _ => true
  | single tag => !tag.isBranch || inBranch
  | block name _ body => fit options (options.isBranchBlock name.word.text) body

/-- Whether items may stand one after the other. No two texts are adjacent. -/
def fit (options : Options) (inBranch : Bool) : List Item → Bool
  | [] => true
  | item :: rest =>
    fits options inBranch item && !(item.isText && rest.head?.any isText) &&
      fit options inBranch rest

end

end Item

/-! ### What is written -/

/-- A text that becomes a symbol of a kind. -/
structure Token where
  kind : SymbolKind
  chars : List Char
deriving DecidableEq, Repr

/-- Tokens that become a span of a kind. -/
structure Part where
  kind : SpanKind
  tokens : List Token
deriving DecidableEq, Repr

def Part.chars (p : Part) : List Char := p.tokens.flatMap Token.chars

def Word.token (w : Word) : Token := ⟨Lexeme.wordKind w.chars, w.chars⟩

def Gap.token (g : Gap) : Token := ⟨.whitespace, g.chars⟩

namespace Arg

def tokens : Arg → List Token
  | word w => [w.token]
  | pair key value _ => [key.token, ⟨.assign, ['=']⟩, value.token]
  | quoted cs _ => [⟨.string, '"' :: cs ++ ['"']⟩]
  | group first others =>
    ⟨.leftParen, ['(']⟩ :: first.token ::
      (others.flatMap fun (gap, w) => [gap.token, w.token]) ++ [⟨.rightParen, [')']⟩]

def part (a : Arg) : Part :=
  match a with
  | pair .. => ⟨.map, a.tokens⟩
  | _ => ⟨.parameter, a.tokens⟩

end Arg

def Args.parts (args : Args) : List Part :=
  args.flatMap fun (gap, arg) => [⟨.whiteSpace, [gap.token]⟩, arg.part]

/-- The mark of a tag behind its opening delimiter. -/
inductive Mark where
  | none
  | hash
  | slash
deriving DecidableEq, Repr

namespace Mark

/-- The kind of a tag with a name that has the mark. -/
def kind : Mark → TagKind
  | none => .expression
  | hash => .blockOpen
  | slash => .blockClose

def parts : Mark → List Part
  | none => []
  | hash => [⟨.metaCode, [⟨.hash, ['#']⟩]⟩]
  | slash => [⟨.metaCode, [⟨.slash, ['/']⟩]⟩]

end Mark

/-- All that is written inside a comment tag. -/
def Comment.body : Comment → List Char
  | short cs _ _ => cs
  | long cs _ => '-' :: '-' :: cs ++ ['-', '-']

def Comment.parts (c : Comment) : List Part :=
  if c.body = [] then [] else [⟨.comment, [⟨.comment, c.body⟩]⟩]

/-- A tag as it is written. -/
inductive Markup where
  | named (mark : Mark) (raw : Bool) (name : Word) (args : Args)
  | comment (comment : Comment)

namespace Markup

def opening (raw : Bool) : Part :=
  ⟨.metaCode, [if raw then ⟨.rawOpenDelimiter, ['{', '{', '{']⟩ else ⟨.openDelimiter, ['{', '{']⟩]⟩

def closing (raw : Bool) : Part :=
  ⟨.metaCode,
    [if raw then ⟨.rawCloseDelimiter, ['}', '}', '}']⟩ else ⟨.closeDelimiter, ['}', '}']⟩]⟩

def kind : Markup → TagKind
  | named mark _ _ _ => mark.kind
  | comment _ => .comment

def name : Markup → String
  | named _ _ name _ => name.text
  | comment _ => ""

def parts : Markup → List Part
  | named mark raw name args =>
    opening raw :: mark.parts ++ ⟨.expression, [name.token]⟩ :: args.parts ++ [closing raw]
  | comment c => opening false :: ⟨.metaCode, [⟨.bang, ['!']⟩]⟩ :: c.parts ++ [closing false]

end Markup

def Single.markup : Single → Markup
  | expression raw name args => .named .none raw name.word args
  | comment c => .comment c
  | «else» args => .named .none false .else args
  | «elseif» args => .named .none false .elseif args
  | hashElseif args => .named .hash false .elseif args

/-- What is written at once: text, or one tag. -/
inductive Fragment where
  | text (text : Plain)
  | markup (markup : Markup)

def Fragment.parts : Fragment → List Part
  | text t => [⟨.text, [⟨.text, t.chars⟩]⟩]
  | markup m => m.parts

mutual

def Item.fragments : Item → List Fragment
  | .text t => [.text t]
  | .single tag => [.markup tag.markup]
  | .block name args body =>
    .markup (.named .hash false name.word args) ::
      (fragments body ++ [.markup (.named .slash false name.word [])])

def fragments : List Item → List Fragment
  | [] => []
  | item :: rest => item.fragments ++ fragments rest

end

/-- The tokens that are written for items. -/
def tokens (items : List Item) : List Token :=
  ((fragments items).flatMap Fragment.parts).flatMap Part.tokens

def chars (items : List Item) : List Char := (tokens items).flatMap Token.chars

/-- The source of a template. -/
def print (items : List Item) : String := String.ofList (chars items)

/-! ### What is to be read -/

/-- Spans for parts that are written from an offset on. -/
def spansAt (offset : Nat) : List Part → List Span
  | [] => []
  | p :: parts =>
    let stop := offset + Text.byteLength p.chars
    ⟨p.kind, String.ofList p.chars, ⟨offset, stop⟩⟩ :: spansAt stop parts

/-- Number of bytes that are written for parts. -/
def width (parts : List Part) : Nat := Text.byteLength (parts.flatMap Part.chars)

/-- The markup of a tag as a block of its own. -/
def elementAt (offset : Nat) (m : Markup) : Node :=
  .block .tagElement "" ((spansAt offset m.parts).map .span)

def Single.nodesAt (offset : Nat) (tag : Single) : List Node :=
  let spans := (spansAt offset tag.markup.parts).map Node.span
  match tag with
  | expression .. => [.block .expression tag.markup.name spans]
  | «else» _ => [.block .tagElement "else" spans]
  | hashElseif _ => [.block .tagElement "" spans]
  | comment _ | «elseif» _ => spans

/-- Number of bytes that are written for fragments. -/
def extent (fs : List Fragment) : Nat := width (fs.flatMap Fragment.parts)

mutual

/-- The nodes for an item that is written from an offset on. -/
def Item.nodesAt (offset : Nat) : Item → List Node
  | .text t => (spansAt offset (Fragment.text t).parts).map .span
  | .single tag => tag.nodesAt offset
  | .block name args body =>
    let first := Markup.named .hash false name.word args
    let inner := offset + width first.parts
    let last := Markup.named .slash false name.word []
    [.block .tag name.word.text (elementAt offset first ::
      nodesAt inner body ++ [elementAt (inner + extent (fragments body)) last])]

def nodesAt (offset : Nat) : List Item → List Node
  | [] => []
  | item :: rest => item.nodesAt offset ++ nodesAt (offset + extent item.fragments) rest

end

end Template

end BraceTemplate

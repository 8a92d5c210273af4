import WikiDocs.Text.Blank
import WikiDocs.Text.Word

/-!
Regular expressions as values: how each is written, and the ways in which it
matches at a place of a text, the preferred one first. The match of a
pattern in a text is the preferred one at the first place that has any.
-/

namespace WikiDocs

open Text

inductive CharClass where
  | just (c : Char)
  | word
  | blank
  | between (first last : Char)
  | among (chars : Text)
  | notAmong (chars : Text)

namespace CharClass

def contains : CharClass → Char → Bool
  | just c, d => d == c
  | word, d => isWord d
  | blank, d => isBlank d
  | between first last, d => first ≤ d && d ≤ last
  | among chars, d => chars.elem d
  | notAmong chars, d => !chars.elem d

/-- A character as it is written inside brackets. -/
def bracketed (c : Char) : Text := if c = '\\' then ['\\', '\\'] else [c]

/-- A character as it is written outside brackets. -/
def literal (c : Char) : Text :=
  if c = '\n' then ['\\', 'n']
  else if c ∈ ['\\', '|', '*', '\x7b'] then ['\\', c]
  else [c]

def written : CharClass → Text
  | just c => literal c
  | word => ['\\', 'w']
  | blank => ['\\', 's']
  | between first last => ['['] ++ bracketed first ++ ['-'] ++ bracketed last ++ [']']
  | among chars => ['['] ++ chars.flatMap bracketed ++ [']']
  | notAmong chars => ['[', '^'] ++ chars.flatMap bracketed ++ [']']

end CharClass

/-- How often a class of characters is repeated, and whether more or fewer are preferred. -/
inductive Repetition where
  /-- Any number, the more the better. -/
  | any
  /-- At least once, the more the better. -/
  | some
  /-- At least once, the fewer the better. -/
  | fewest
  /-- Once or not at all, better once. -/
  | optional

namespace Repetition

def written : Repetition → Text
  | any => ['*']
  | some => ['+']
  | fewest => ['+', '?']
  | optional => ['?']

/-- The possible numbers of repetitions where at most `n` characters fit, the preferred first. -/
def counts (n : Nat) : Repetition → List Nat
  | any => (List.range (n + 1)).reverse
  | some => ((List.range n).map (· + 1)).reverse
  | fewest => (List.range n).map (· + 1)
  | optional => if n = 0 then [0] else [1, 0]

end Repetition

/-- A regular expression. Only classes of characters are repeated. -/
inductive Pattern where
  | atStart
  | one (chars : CharClass)
  | repeated (chars : CharClass) (times : Repetition)
  | seq (p q : Pattern)
  | either (p q : Pattern)
  | group (name : String) (p : Pattern)

namespace Pattern

/-- The patterns of a list, one after the other. Without any, nothing is taken: no character is
among none. -/
def all : List Pattern → Pattern
  | [] => .repeated (.among []) .any
  | [p] => p
  | p :: ps => .seq p (all ps)

/-- A word that stands for itself. -/
def exact (s : Text) : Pattern := all (s.map fun c => .one (.just c))

def written : Pattern → Text
  | atStart => ['^']
  | one chars => chars.written
  | repeated chars times => chars.written ++ times.written
  | seq p q => p.written ++ q.written
  | either p q => "(?:".toList ++ p.written ++ ['|'] ++ q.written ++ [')']
  | group name p => "(?P<".toList ++ name.toList ++ ['>'] ++ p.written ++ [')']

/-- One way in which a pattern matches at a place: the text it takes, the text after it, and what
its groups take, in the order of their opening. -/
structure Reading where
  taken : Text
  rest : Text
  groups : List (String × Text) := []

namespace Reading

def andThen (r r' : Reading) : Reading := ⟨r.taken ++ r'.taken, r'.rest, r.groups ++ r'.groups⟩

/-- What the group `name` took; nothing if there is no such group. -/
def groupText (r : Reading) (name : String) : Text := (r.groups.lookup name).getD []

end Reading

/-- The ways in which a pattern matches where `s` is what follows, the preferred one first.
`start` tells whether nothing precedes. -/
def readings : Pattern → Bool → Text → List Reading
  | atStart, start, s => if start then [⟨[], s, []⟩] else []
  | one _, _, [] => []
  | one chars, _, c :: s => if chars.contains c then [⟨[c], s, []⟩] else []
  | repeated chars times, _, s =>
    (times.counts (s.takeWhile chars.contains).length).map fun n => ⟨s.take n, s.drop n, []⟩
  | seq p q, start, s =>
    (p.readings start s).flatMap fun r =>
      (q.readings (start && r.taken.isEmpty) r.rest).map r.andThen
  | either p q, start, s => p.readings start s ++ q.readings start s
  | group name p, start, s =>
    (p.readings start s).map fun r => { r with groups := (name, r.taken) :: r.groups }

/-- The match of a pattern at a place: the preferred reading there. -/
def matchAt? (p : Pattern) (start : Bool) (s : Text) : Option Reading := (p.readings start s).head?

/-- The first match of a pattern from a place on, with the text passed over before it. -/
def matchFrom? (p : Pattern) (start : Bool) (s : Text) : Option (Text × Reading) :=
  match p.matchAt? start s with
  | some r => some ([], r)
  | none =>
    match s with
    | [] => none
    | c :: s => (p.matchFrom? false s).map fun (before, r) => (c :: before, r)

def match? (p : Pattern) (s : Text) : Option (Text × Reading) := p.matchFrom? true s

end Pattern
end WikiDocs
